import Scriptlet.Proofs.Derivation
import Scriptlet.Proofs.Newline
import Scriptlet.Proofs.Outcome

/-!
# Lines typed by a user

A program ends with a semicolon or a brace, so a line that compiles is not changed before it is
read, and it is run as a source is, but that a lone expression shows its value. A line that does not
compile gets a semicolon, and is then scanned as its own tokens and one more, whatever comment it
ends in (`Session.runLine_agrees`).
-/

namespace Scriptlet

namespace Grammar

/-- The grammar derives the tokens as a program. -/
def IsProgram (tokens : List Token) : Prop :=
  ∃ ds, Sentence.allTokens ds = tokens

namespace Sentence

theorem allTokens_append : ∀ a b : List Sentence, allTokens (a ++ b) = allTokens a ++ allTokens b
  | [], b => rfl
  | d :: a, b => by rw [List.cons_append, allTokens, allTokens, allTokens_append a b, List.append_assoc]

/-- A sentence ends with a semicolon, in place of which there may be any other, or with a brace. -/
theorem tokens_eq_concat (d : Sentence) :
    ∃ tokens t, d.tokens = tokens ++ [t]
      ∧ (t.kind = .rightBrace ∨ t.kind = .semicolon
        ∧ ∀ u, u.kind = .semicolon → ∃ d' : Sentence, d'.tokens = tokens ++ [u]) := by
  cases d with
  | declare keyword name initial semicolon =>
    refine ⟨keyword.token :: name.token :: initialTokens initial, semicolon.token, rfl,
      .inr ⟨semicolon.kind_eq, fun u hu => ⟨.declare keyword name initial (.one u hu), rfl⟩⟩⟩
  | print keyword e semicolon =>
    exact ⟨keyword.token :: e.tokens, semicolon.token, rfl,
      .inr ⟨semicolon.kind_eq, fun u hu => ⟨.print keyword e (.one u hu), rfl⟩⟩⟩
  | block opening body closing =>
    exact ⟨opening.token :: allTokens body, closing.token, rfl, .inl closing.kind_eq⟩
  | expression e semicolon =>
    exact ⟨e.tokens, semicolon.token, rfl,
      .inr ⟨semicolon.kind_eq, fun u hu => ⟨.expression e (.one u hu), rfl⟩⟩⟩

end Sentence

/-- The last token of a program that is not empty closes its last sentence. -/
theorem IsProgram.concat_cases {tokens : List Token} {t : Token} (h : IsProgram (tokens ++ [t])) :
    t.kind = .rightBrace
      ∨ t.kind = .semicolon ∧ ∀ u, u.kind = .semicolon → IsProgram (tokens ++ [u]) := by
  obtain ⟨ds, hds⟩ := h
  rcases List.eq_nil_or_concat' ds with rfl | ⟨init, d, rfl⟩
  · exact absurd hds (by simp [Sentence.allTokens])
  obtain ⟨front, last, hd, hlast⟩ := d.tokens_eq_concat
  rw [Sentence.allTokens_append, Sentence.allTokens, hd, Sentence.allTokens, List.append_nil,
    ← List.append_assoc] at hds
  obtain ⟨rfl, ht⟩ := List.append_inj' hds rfl
  obtain rfl := List.singleton_inj.1 ht
  refine hlast.imp id fun ⟨hk, hu⟩ => ⟨hk, fun u hu' => ?_⟩
  obtain ⟨d', hd'⟩ := hu u hu'
  refine ⟨init ++ [d'], ?_⟩
  rw [Sentence.allTokens_append, Sentence.allTokens, hd', Sentence.allTokens, List.append_nil,
    List.append_assoc]

end Grammar

/-! ### A semicolon on a line of its own -/

namespace Segment

theorem rule_single_ne_unclosed (c : Char) : (single c).rule ≠ .unclosed := by
  unfold single
  split <;> simp

theorem rule_cutMark_ne_unclosed (c : Char) (after : List Char) :
    (cutMark c after).1.rule ≠ .unclosed := by
  unfold cutMark
  split
  · exact rule_single_ne_unclosed c
  · split
    · simp
    · exact rule_single_ne_unclosed c

theorem dropWhile_isQuotedPart_eq_nil_iff {after : List Char} :
    after.dropWhile isQuotedPart = [] ↔ '"' ∉ after := by
  rw [List.dropWhile_eq_nil_iff]
  constructor
  · intro h hq
    simpa [isQuotedPart] using h _ hq
  · intro hq c hc
    simpa [isQuotedPart] using fun h : c = '"' => hq (h ▸ hc)

/-- A text that is never closed starts at a quote, and no quote follows. -/
theorem rule_first_eq_unclosed_iff {c : Char} {after : List Char} :
    (first c after).1.rule = .unclosed ↔ c = '"' ∧ '"' ∉ after := by
  have hquoted : (cutQuoted after).1.rule = .unclosed ↔ '"' ∉ after := by
    rw [← dropWhile_isQuotedPart_eq_nil_iff, cutQuoted]
    split <;> simp_all
  unfold first
  split
  · rename_i hc
    simp [hc, hquoted]
  · rename_i hc
    simp only [hc, false_and, iff_false]
    split
    · simp
    split
    · simp
    split
    · simp
    split
    · simp
    · exact rule_cutMark_ne_unclosed c after

/-- A text that is never closed takes in a line end and what follows, if that has no quote. -/
theorem rule_ne_unclosed_of_append_newline {source rest : List Char} (hq : '"' ∉ rest)
    (h : ∀ s ∈ split (source ++ '\n' :: rest), s.rule ≠ .unclosed) :
    ∀ s ∈ split source, s.rule ≠ .unclosed := by
  fun_induction split source with
  | case1 => exact fun s hs => absurd hs List.not_mem_nil
  | case2 c after ih =>
    rw [List.cons_append, split] at h
    obtain ⟨hfirst, hafter⟩ := List.forall_mem_cons.1 h
    have hc : (first c after).1.rule ≠ .unclosed := by
      intro hu
      obtain ⟨rfl, hq'⟩ := rule_first_eq_unclosed_iff.1 hu
      exact hfirst (rule_first_eq_unclosed_iff.2 ⟨rfl, by simp [hq, hq']⟩)
    rw [first_append_newline hc] at hafter
    exact List.forall_mem_cons.2 ⟨hc, ih hafter⟩

theorem rule_of_unterminated {s : Segment} {start : Position} {e : LexicalError}
    (h : s.error? start = some e) (hcause : e.cause = .unterminated) : s.rule = .unclosed := by
  obtain ⟨rule, text⟩ := s
  cases rule with
  | unclosed => rfl
  | stray c =>
    cases h
    cases hcause
  | number =>
    simp only [error?] at h
    split at h
    · cases h
    · cases h
      cases hcause
  | _ => cases h

theorem cause_ne_unterminated {segments : List Segment} (start : Position)
    (h : ∀ s ∈ segments, s.rule ≠ .unclosed) :
    ∀ e ∈ (place start segments).filterMap fun p => p.1.error? p.2, e.cause ≠ .unterminated := by
  induction segments generalizing start with
  | nil => exact fun e he => absurd he List.not_mem_nil
  | cons s segments ih =>
    obtain ⟨hs, hsegments⟩ := List.forall_mem_cons.1 h
    rw [place, List.filterMap_cons]
    simp only
    cases herror : s.error? start with
    | none => exact ih _ hsegments
    | some e =>
      exact List.forall_mem_cons.2 ⟨fun hcause => hs (rule_of_unterminated herror hcause),
        ih _ hsegments⟩

end Segment

namespace Scan

/-- A source before a line end and another source without quotes has no errors but its own. -/
theorem errors_eq_nil_of_append_newline {a b : String} (hq : '"' ∉ b.toList)
    (h : (ofSource (a ++ "\n" ++ b)).errors = []) : (ofSource a).errors = [] := by
  have hlist : (a ++ "\n" ++ b).toList = a.toList ++ '\n' :: b.toList := by simp
  have hrule : ∀ s ∈ Segment.split (a.toList ++ '\n' :: b.toList), s.rule ≠ .unclosed := by
    rw [← hlist]
    refine Segment.rule_ne_unclosed .start fun e he => ?_
    have hnone : e ∈ (ofSource (a ++ "\n" ++ b)).errors := he
    rw [h] at hnone
    exact absurd hnone List.not_mem_nil
  obtain ⟨-, -, herrors⟩ := ofSource_append_newline b
    (Segment.cause_ne_unterminated .start (Segment.rule_ne_unclosed_of_append_newline hq hrule))
  rw [h] at herrors
  exact (List.append_eq_nil_iff.1 herrors.symm).1

/-- A line with a semicolon on a line of its own has its tokens and one more. -/
theorem ofSource_append_semicolon (line : String) :
    ((ofSource (line ++ "\n;")).errors = [] ↔ (ofSource line).errors = [])
      ∧ ((ofSource line).errors = [] → ∃ semicolon, semicolon.kind = .semicolon
        ∧ (ofSource (line ++ "\n;")).stream.ahead = (ofSource line).stream.ahead ++ [semicolon]) := by
  have happ : line ++ "\n;" = line ++ "\n" ++ ";" := by
    rw [String.append_assoc]
    rfl
  have hahead : (ofSource ";").stream.ahead = [⟨.semicolon, ";", .nil, 1⟩] := by cbv
  have herrors : (ofSource ";").errors = [] := by cbv
  have hsource (h : (ofSource line).errors = []) :=
    ofSource_append_newline (a := line) ";" (by rw [h]; simp)
  rw [happ]
  refine ⟨⟨errors_eq_nil_of_append_newline (by decide), fun h => ?_⟩, fun h => ?_⟩
  · rw [(hsource h).2.2, h, herrors]
    rfl
  · rw [(hsource h).1, hahead]
    exact ⟨_, rfl, rfl⟩

end Scan

/-! ### Compiling -/

namespace Compilation

theorem reports_eq_nil_iff {source : String} :
    (ofSource source).reports = []
      ↔ (Scan.ofSource source).errors = [] ∧ Grammar.IsProgram (Scan.ofSource source).stream.ahead := by
  rw [Grammar.IsProgram, ← Grammar.errors_parseAll_iff]
  simp only [ofSource, List.append_eq_nil_iff, List.map_eq_nil_iff]
  rfl

end Compilation

namespace Session

open Grammar

variable {line : String}

theorem closeLine_of_closed (h : ∀ t ∈ (Scan.ofSource line).stream.ahead.getLast?,
    t.kind = .semicolon ∨ t.kind = .rightBrace) : closeLine line = line := by
  unfold closeLine
  split
  · rfl
  · rename_i t ht
    rw [if_pos (h t ht)]

theorem closeLine_of_open {t : Token} (ht : (Scan.ofSource line).stream.ahead.getLast? = some t)
    (h : ¬ (t.kind = .semicolon ∨ t.kind = .rightBrace)) : closeLine line = line ++ "\n;" := by
  simp only [closeLine, ht, if_neg h]

/-- The last token of a program closes it. -/
theorem closed_of_isProgram {tokens : List Token} (h : IsProgram tokens) :
    ∀ t ∈ tokens.getLast?, t.kind = .semicolon ∨ t.kind = .rightBrace := by
  intro t ht
  obtain ⟨front, rfl⟩ := List.getLast?_eq_some_iff.1 ht
  exact h.concat_cases.elim .inr fun h => .inl h.1

/-- What a line compiles to once it is closed. -/
theorem reports_closeLine_eq_nil_iff (line : String) :
    (Compilation.ofSource (closeLine line)).reports = []
      ↔ (Scan.ofSource line).errors = []
        ∧ (IsProgram (Scan.ofSource line).stream.ahead
          ∨ ∃ last semicolon, (Scan.ofSource line).stream.ahead.getLast? = some last
            ∧ last.kind ≠ .semicolon ∧ last.kind ≠ .rightBrace ∧ semicolon.kind = .semicolon
            ∧ IsProgram ((Scan.ofSource line).stream.ahead ++ [semicolon])) := by
  rw [Compilation.reports_eq_nil_iff]
  by_cases hclosed : ∀ t ∈ (Scan.ofSource line).stream.ahead.getLast?,
      t.kind = .semicolon ∨ t.kind = .rightBrace
  · rw [closeLine_of_closed hclosed]
    refine and_congr_right fun _ => ⟨.inl, ?_⟩
    rintro (h | ⟨last, semicolon, hlast, hs, hb, -⟩)
    · exact h
    · exact absurd (hclosed last hlast) (not_or.2 ⟨hs, hb⟩)
  · push Not at hclosed
    obtain ⟨last, hlast, hs, hb⟩ := hclosed
    rw [closeLine_of_open hlast (not_or.2 ⟨hs, hb⟩)]
    obtain ⟨herrors, hahead⟩ := Scan.ofSource_append_semicolon line
    rw [herrors]
    refine and_congr_right fun h => ?_
    obtain ⟨semicolon, hk, hsource⟩ := hahead h
    rw [hsource]
    constructor
    · exact fun hp => .inr ⟨last, semicolon, hlast, hs, hb, hk, hp⟩
    · rintro (hp | ⟨-, semicolon', -, -, -, hk', hp⟩)
      · exact absurd (closed_of_isProgram hp last hlast) (not_or.2 ⟨hs, hb⟩)
      · rcases hp.concat_cases with h | ⟨-, h⟩
        · rw [hk'] at h
          cases h
        · exact h semicolon hk

theorem closeLine_of_compiles (h : (Compilation.ofSource line).reports = []) :
    closeLine line = line :=
  closeLine_of_closed (closed_of_isProgram (Compilation.reports_eq_nil_iff.1 h).2)

end Session

/-! ### Running -/

theorem Stmt.exec_of_ok {e : Expr} {s s' : Interpreter} {v : Value} (h : e.eval s = .ok v s') :
    (Stmt.expression e).exec s = ⟨none, [], s'⟩
      ∧ (Stmt.print e).exec s = ⟨none, [v.display], s'⟩ := by
  simp only [exec, Run.ofEvaluation, EStateM.run, h]
  exact ⟨rfl, trivial⟩

theorem Stmt.exec_of_error {e : Expr} {s s' : Interpreter} {fault : Fault}
    (h : e.eval s = .error fault s') :
    (Stmt.print e).exec s = (Stmt.expression e).exec s := by
  simp only [exec, Run.ofEvaluation, EStateM.run, h]

namespace Session

open Grammar

/-- To show the value of a lone expression is all that a typed line does beyond its program. -/
theorem execAll_echoing (program : List Stmt) (s : Interpreter) :
    let r := Stmt.execAll program s
    let r' := Stmt.execAll (echoing program) s
    r'.fault = r.fault ∧ r'.after = r.after
      ∧ (∀ e v s', program = [.expression e] → e.eval s = .ok v s' →
        r'.printed = [v.display] ∧ r.printed = [])
      ∧ ((∀ e v s', program = [.expression e] → e.eval s ≠ .ok v s') → r'.printed = r.printed) := by
  by_cases hlone : ∃ e, program = [.expression e]
  · obtain ⟨e, rfl⟩ := hlone
    simp only [echoing, Stmt.execAll_singleton]
    cases heval : e.eval s with
    | ok v s' =>
      obtain ⟨hexpression, hprint⟩ := Stmt.exec_of_ok heval
      rw [hexpression, hprint]
      refine ⟨rfl, rfl, ?_, fun h => absurd heval (h e v s' rfl)⟩
      rintro e' v' s'' he hv
      cases he
      cases heval.symm.trans hv
      exact ⟨rfl, rfl⟩
    | error fault s' =>
      rw [Stmt.exec_of_error heval]
      refine ⟨rfl, rfl, ?_, fun _ => rfl⟩
      rintro e' v' s'' he hv
      cases he
      cases heval.symm.trans hv
  · rw [not_exists] at hlone
    rw [echoing_of_forall_ne hlone]
    exact ⟨rfl, rfl, fun e v s' h => absurd h (hlone e), fun _ => rfl⟩

/-- A line that compiles is run as a source is, but that the value of a lone expression is printed.
A line is rejected unless its tokens form a program as they are, or form one with a semicolon that
their last token leaves out. -/
theorem runLine_agrees (s : Session) (line : String) :
    ((Compilation.ofSource line).reports = [] →
        (s.runLine line).status = (s.run line).status
          ∧ (s.runLine line).reports = (s.run line).reports
          ∧ (s.runLine line).session.interpreter = (s.run line).session.interpreter
          ∧ (∀ e v s', (Compilation.ofSource line).program = [.expression e] →
            e.eval s.interpreter = .ok v s' →
              (s.runLine line).printed = [v.display] ∧ (s.run line).printed = [])
          ∧ ((∀ e v s', (Compilation.ofSource line).program = [.expression e] →
            e.eval s.interpreter ≠ .ok v s') →
              (s.runLine line).printed = (s.run line).printed))
      ∧ ((s.runLine line).status ≠ .compileError
        ↔ (Scan.ofSource line).errors = []
          ∧ (IsProgram (Scan.ofSource line).stream.ahead
            ∨ ∃ last semicolon, (Scan.ofSource line).stream.ahead.getLast? = some last
              ∧ last.kind ≠ .semicolon ∧ last.kind ≠ .rightBrace ∧ semicolon.kind = .semicolon
              ∧ IsProgram ((Scan.ofSource line).stream.ahead ++ [semicolon]))) := by
  constructor
  · intro h
    obtain ⟨hfault, hafter, hshown, hrest⟩ :=
      execAll_echoing (Compilation.ofSource line).program s.interpreter
    rw [runLine_eq_runAs, closeLine_of_compiles h, run_eq_runAs, runAs_of_reports_eq_nil h,
      runAs_of_reports_eq_nil h]
    simp only [Answer.reports, Answer.ofRun, hfault, hafter, id_eq]
    exact ⟨trivial, trivial, trivial, hshown, hrest⟩
  · rw [ne_eq, runLine_eq_runAs, status_runAs_eq_compileError_iff, not_not,
      reports_closeLine_eq_nil_iff]

theorem runLine_agrees_nil :
    (fresh.runLine "nil;").printed = ["nil"] ∧ (fresh.run "nil;").printed = []
      ∧ (fresh.runLine "nil // none").status ≠ .compileError := by
  have hcompiles : (Compilation.ofSource "nil;").reports = [] := by cbv
  obtain ⟨-, -, -, hshown, -⟩ := (runLine_agrees fresh "nil;").1 hcompiles
  obtain ⟨hline, hrun⟩ := hshown (.literal .nil) .nil fresh.interpreter (by cbv) rfl
  have hscan : (Scan.ofSource "nil // none").stream.ahead = [⟨.kwNil, "nil", .nil, 1⟩] := by cbv
  have hprogram : IsProgram [⟨.kwNil, "nil", .nil, 1⟩, ⟨.semicolon, ";", .nil, 1⟩] :=
    errors_parseAll_iff.1 (by cbv)
  refine ⟨hline, hrun, (runLine_agrees fresh "nil // none").2.2 ⟨by cbv, .inr ?_⟩⟩
  rw [hscan]
  exact ⟨⟨.kwNil, "nil", .nil, 1⟩, ⟨.semicolon, ";", .nil, 1⟩, rfl, by decide, by decide, rfl,
    hprogram⟩

end Session

end Scriptlet
