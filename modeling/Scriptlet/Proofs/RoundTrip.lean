import Scriptlet.Proofs.GrammarComplete
import Scriptlet.Proofs.Infix
import Scriptlet.Proofs.Layout
import Scriptlet.Proofs.Numerals

/-!
# Written and read back

A program whose trees are ordered, written in infix form with any blanks between its lexemes, is
read without a report into the same trees, but for the lines of its names and operators
(`Compilation.ofSource_written`). Its numbers are written as they are displayed.
-/

namespace Scriptlet

/-- The tokens that can be written: marks and reserved words with their spellings, names that are
words but not reserved, magnitudes as they are displayed, and texts without a quote in quotes. -/
inductive Token.Writable : Token → Prop
  | mark {kind : Kind} {lexeme : String} (h : (lexeme.toList, kind) ∈ Kind.marks) (line : Nat) :
      Writable ⟨kind, lexeme, .nil, line⟩
  | reserved {kind : Kind} {word : String} (h : (word, kind) ∈ Kind.reserved) (line : Nat) :
      Writable ⟨kind, word, .nil, line⟩
  | name {word : String} (h : Lexicon.Matches .word word.toList)
      (hr : ∀ kind, (word, kind) ∉ Kind.reserved) (line : Nat) : Writable (.ident word line)
  | number {x : Float} (h : Decimal.IsMagnitude x) (line : Nat) :
      Writable ⟨.number, Decimal.display .plain x, .number x, line⟩
  | quoted {s : String} (h : '"' ∉ s.toList) (line : Nat) :
      Writable ⟨.string, "\"" ++ s ++ "\"", .string s, line⟩

namespace Lexicon

theorem matches_reserved {word : String} {kind : Kind} (h : (word, kind) ∈ Kind.reserved) :
    Matches .word word.toList := by
  have key : (Kind.reserved.all fun entry => !entry.1.toList.isEmpty
      && entry.1.toList.all Segment.isWordStart) = true := by decide
  have hword := List.all_eq_true.1 key _ h
  cases hlist : word.toList with
  | nil => simp [hlist] at hword
  | cons c rest =>
    simp only [hlist, List.isEmpty_cons, Bool.not_false, Bool.true_and, List.all_cons,
      Bool.and_eq_true, List.all_eq_true, isWordStart_iff] at hword
    exact .word hword.1 fun d hd => .inl (hword.2 d hd)

theorem ofWord_of_not_reserved {word : String} (h : ∀ kind, (word, kind) ∉ Kind.reserved) :
    Kind.ofWord word = .identifier := by
  unfold Kind.ofWord
  cases hw : Kind.ofReserved? word with
  | none => rfl
  | some kind => exact absurd (ofReserved?_eq_some_iff.1 hw) (h kind)

theorem ofWord_of_reserved {word : String} {kind : Kind} (h : (word, kind) ∈ Kind.reserved) :
    Kind.ofWord word = kind := by
  rw [Kind.ofWord, ofReserved?_eq_some_iff.2 h]
  rfl

/-- What can be written is what its lexeme stands for. -/
theorem spelled_of_writable {t : Token} (h : t.Writable) : Spelled t := by
  cases h with
  | mark h => exact spelled_mark h rfl
  | reserved h => exact spelled_word (matches_reserved h) (ofWord_of_reserved h).symm rfl
  | name h hr => exact spelled_word h (ofWord_of_not_reserved hr).symm rfl
  | number h =>
    obtain ⟨d, hd, hx⟩ := Option.map_eq_some_iff.1 (Decimal.readsBack_of_isMagnitude h)
    exact spelled_number hd rfl (congrArg Value.number hx.symm)
  | quoted h => exact spelled_quoted h rfl rfl rfl

end Lexicon

namespace Grammar

/-- What sentences derive is read as their trees, on whatever lines it is. -/
theorem parseAll_of_reline {tokens : List Token} {ds : List Sentence}
    (h : tokens.map (Token.reline fun _ => 1)
      = (Sentence.allTokens ds).map (Token.reline fun _ => 1)) :
    Stmt.relineAll (fun _ => 1) (Stmt.parseAll tokens).value
        = Stmt.relineAll (fun _ => 1) (Sentence.trees ds)
      ∧ (Stmt.parseAll tokens).errors = [] := by
  obtain ⟨hvalue, herrors, -⟩ := Relining.relined_parseAll (g := fun _ => 1) tokens
  obtain ⟨hvalue', herrors', -⟩ :=
    Relining.relined_parseAll (g := fun _ => 1) (Sentence.allTokens ds)
  obtain ⟨hds, hclean, -⟩ := Sentence.gives_parseAll ds
  rw [h, hvalue', hds] at hvalue
  rw [h, herrors', hclean] at herrors
  exact ⟨hvalue.symm, List.map_eq_nil_iff.1 herrors.symm⟩

end Grammar

namespace Compilation

open Grammar Lexicon

/-- A program whose trees are ordered is read back from its infix form without a report, but for
the lines of its tokens. -/
theorem ofSource_written {program : List Stmt} (hordered : Stmt.OrderedAll program)
    (hwritable : ∀ t ∈ Stmt.tokensAll program, t.Writable) {source : String}
    (hsource : Spaced ((Stmt.tokensAll program).map Token.lexeme) source.toList) :
    (ofSource source).reports = []
      ∧ Stmt.relineAll (fun _ => 1) (ofSource source).program
        = Stmt.relineAll (fun _ => 1) program := by
  obtain ⟨ds, rfl, hds⟩ := exists_sentences_of_ordered hordered
  have hspelled : ∀ t ∈ Stmt.tokensAll (Sentence.trees ds), Spelled t :=
    fun t ht => spelled_of_writable (hwritable t ht)
  obtain ⟨hahead, hscan⟩ := ofSource_spaced hspelled hsource
  rw [← hds] at hahead
  obtain ⟨hvalue, herrors⟩ := parseAll_of_reline hahead
  refine ⟨?_, hvalue⟩
  show (Scan.ofSource source).errors.map Report.ofLexicalError
    ++ (Stmt.parseAll (Scan.ofSource source).stream.ahead).errors.map
      (Report.ofSyntaxError (Scan.ofSource source).stream.final) = []
  rw [hscan, herrors]
  rfl

theorem ofSource_written_product :
    let product := Expr.binary (.unary ⟨.minus, "-", .nil, 3⟩ (.literal (.number 2.5)))
      ⟨.star, "*", .nil, 5⟩ (.name (.ident "printer" 8))
    let program := [Stmt.print product]
    let source := "print - 2.5\n* printer \t;\n"
    Stmt.OrderedAll program ∧ (∀ t ∈ Stmt.tokensAll program, t.Writable)
      ∧ Spaced ((Stmt.tokensAll program).map Token.lexeme) source.toList
      ∧ (ofSource source).reports = []
      ∧ Stmt.relineAll (fun _ => 1) (ofSource source).program
        = Stmt.relineAll (fun _ => 1) program := by
  intro product program source
  have hordered : Stmt.OrderedAll program :=
    ⟨⟨⟨by decide, trivial, by decide⟩, rfl, 5, rfl, by decide, by decide⟩, trivial⟩
  have hmagnitude : Decimal.IsMagnitude 2.5 := by decide +kernel
  have htext : Decimal.display .plain 2.5 = "2.5" := by decide +kernel
  have hword : Matches .word "printer".toList :=
    .word (by decide : Letter 'p') (by simp [Letter] : ∀ d ∈ ['r', 'i', 'n', 't', 'e', 'r'], _)
  have hprinter : Token.Writable (.ident "printer" 8) :=
    .name hword (fun kind h => (by decide : ∀ entry ∈ Kind.reserved, entry.1 ≠ "printer") _ h rfl) 8
  have hwritable : ∀ t ∈ Stmt.tokensAll program, t.Writable := by
    simp only [program, product, Stmt.tokensAll, Stmt.tokens, Expr.tokens, Value.token,
      List.append_nil, List.cons_append, List.nil_append, List.forall_mem_cons]
    exact ⟨.reserved (by decide) 1, .mark (by decide) 3, .number hmagnitude 1,
      .mark (by decide) 5, hprinter, .mark (by decide) 1, by simp⟩
  have hsource : Spaced ((Stmt.tokensAll program).map Token.lexeme) source.toList := by
    have hlexemes : (Stmt.tokensAll program).map Token.lexeme
        = ["print", "-", "2.5", "*", "printer", ";"] := by
      rw [← htext]
      rfl
    have hspaced := spaced_flatMap [("print", [' ']), ("-", [' ']), ("2.5", ['\n']), ("*", [' ']),
      ("printer", [' ', '\t']), (";", ['\n'])] (by simp)
    rw [hlexemes]
    simpa [source] using hspaced
  exact ⟨hordered, hwritable, hsource, ofSource_written hordered hwritable hsource⟩

end Compilation

end Scriptlet
