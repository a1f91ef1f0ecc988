import Scriptlet.Proofs.InteractiveLine
import Scriptlet.Proofs.Sites

/-!
# The reports of a typed line

A line whose last token closes no statement is read with a semicolon on a further line, and that
semicolon shows: a report is about the line as it was typed, or it is about the further line, at the
semicolon, at the end, or at a text that is never closed and takes the semicolon in
(`Session.runLine_reports`). The reports of a running program are all about the typed line. So a
line of one line can be answered by a report on line two
(`Session.runLine_reports_not_within`).
-/

namespace Scriptlet

namespace Segment

/-! ### Lines -/

theorem mem_place {s : Segment} {p start : Position} {segments : List Segment}
    (h : (s, p) ∈ place start segments) :
    ∃ before after, segments = before ++ s :: after
      ∧ p = start.advance (before.flatMap text) := by
  induction segments generalizing start with
  | nil => exact absurd h List.not_mem_nil
  | cons s' segments ih =>
    rw [place] at h
    rcases List.mem_cons.1 h with h | h
    · cases h
      exact ⟨[], segments, rfl, rfl⟩
    · obtain ⟨before, after, rfl, rfl⟩ := ih h
      exact ⟨s' :: before, after, rfl, by rw [List.flatMap_cons, Position.advance_append]⟩

/-- A segment of a source starts and ends on lines of the source. -/
theorem line_of_mem_place {source : List Char} {s : Segment} {p : Position}
    (h : (s, p) ∈ place .start (split source)) :
    1 ≤ p.line ∧ p.line ≤ (p.advance s.text).line
      ∧ (p.advance s.text).line ≤ 1 + source.count '\n' := by
  obtain ⟨before, after, hsplit, rfl⟩ := mem_place h
  have hsource := flatMap_text_split source
  rw [hsplit, List.flatMap_append, List.flatMap_cons] at hsource
  have hcount := congrArg (List.count '\n') hsource
  simp only [List.count_append] at hcount
  simp only [Position.line_advance, Position.start]
  omega

theorem line_of_token? {s : Segment} {p : Position} {t : Token} (h : s.token? p = some t) :
    t.line = p.line := by
  obtain ⟨rule, text⟩ := s
  cases rule with
  | number =>
    obtain ⟨d, -, rfl⟩ := Option.map_eq_some_iff.1 h
    rfl
  | mark kind => cases h; rfl
  | word => cases h; rfl
  | quoted => cases h; rfl
  | _ => cases h

theorem line_of_error? {s : Segment} {p : Position} {e : LexicalError}
    (h : s.error? p = some e) : e.line = p.line ∨ e.line = (p.advance s.text).line := by
  obtain ⟨rule, text⟩ := s
  cases rule with
  | stray c => cases h; exact .inl rfl
  | unclosed => cases h; exact .inr rfl
  | number =>
    simp only [error?] at h
    split at h
    · cases h
    · cases h
      exact .inl rfl
  | _ => cases h

end Segment

namespace Scan

open Segment

theorem line_of_mem_ahead {source : String} {t : Token}
    (h : t ∈ (ofSource source).stream.ahead) : 1 ≤ t.line ∧ t.line ≤ height source := by
  obtain ⟨⟨s, p⟩, hmem, ht⟩ := List.mem_filterMap.1 h
  have hline : t.line = p.line := line_of_token? ht
  have hplace := line_of_mem_place hmem
  rw [height]
  omega

theorem line_of_mem_errors {source : String} {e : LexicalError}
    (h : e ∈ (ofSource source).errors) : 1 ≤ e.line ∧ e.line ≤ height source := by
  obtain ⟨⟨s, p⟩, hmem, he⟩ := List.mem_filterMap.1 h
  have hline : e.line = p.line ∨ e.line = (p.advance s.text).line := line_of_error? he
  have hplace := line_of_mem_place hmem
  rw [height]
  omega

theorem line_final (source : String) : (ofSource source).stream.final.line = height source :=
  Position.line_advance .start source.toList

end Scan

/-! ### A text that is never closed takes the semicolon in -/

namespace Segment

theorem first_of_unclosed {after : List Char} (h : '"' ∉ after) :
    first '"' after = (⟨.unclosed, '"' :: after⟩, []) := by
  rw [first, if_pos rfl, cutQuoted, dropWhile_isQuotedPart_eq_nil_iff.2 h]

theorem split_append_newline_of_unclosed {source rest : List Char} (hq : '"' ∉ rest)
    (h : ∃ s ∈ split source, s.rule = .unclosed) :
    ∃ front text, split source = front ++ [⟨.unclosed, text⟩]
      ∧ split (source ++ '\n' :: rest) = front ++ [⟨.unclosed, text ++ '\n' :: rest⟩] := by
  fun_induction split source with
  | case1 =>
    obtain ⟨s, hs, -⟩ := h
    exact absurd hs List.not_mem_nil
  | case2 c after ih =>
    by_cases hu : (first c after).1.rule = .unclosed
    · obtain ⟨rfl, hafter⟩ := rule_first_eq_unclosed_iff.1 hu
      have happ : '"' ∉ after ++ '\n' :: rest := by simp [hafter, hq]
      refine ⟨[], '"' :: after, ?_, ?_⟩
      · rw [first_of_unclosed hafter, split]
        rfl
      · rw [List.cons_append, split, first_of_unclosed happ, split]
        rfl
    · have hrest : ∃ s ∈ split (first c after).2, s.rule = .unclosed := by
        obtain ⟨s, hs, hrule⟩ := h
        rcases List.mem_cons.1 hs with rfl | hs
        · exact absurd hrule hu
        · exact ⟨s, hs, hrule⟩
      obtain ⟨front, text, hsplit, happ⟩ := ih hrest
      refine ⟨(first c after).1 :: front, text, ?_, ?_⟩
      · rw [hsplit, List.cons_append]
      · rw [List.cons_append, split, first_append_newline hu, happ, List.cons_append]

end Segment

namespace Scan

open Segment

/-- The semicolon on the line after a typed line. -/
def addedSemicolon (line : String) : Token :=
  ⟨.semicolon, ";", .nil, height line + 1⟩

/-- With a semicolon on a line of its own, a line has no other tokens than its own and that
semicolon, and no other errors than its own and a text that is still open on the further line. -/
theorem mem_append_semicolon (line : String) :
    (∀ t ∈ (ofSource (line ++ "\n;")).stream.ahead,
        t ∈ (ofSource line).stream.ahead ∨ t = addedSemicolon line)
      ∧ ∀ e ∈ (ofSource (line ++ "\n;")).errors,
        e ∈ (ofSource line).errors ∨ e = ⟨height line + 1, .unterminated⟩ := by
  by_cases hclosed : ∀ s ∈ split line.toList, s.rule ≠ .unclosed
  · have happ : line ++ "\n;" = line ++ "\n" ++ ";" := by
      rw [String.append_assoc]
      rfl
    have hsemicolon : (ofSource ";").stream.ahead = [⟨.semicolon, ";", .nil, 1⟩] := by cbv
    have hnone : (ofSource ";").errors = [] := by cbv
    obtain ⟨hahead, -, herrors⟩ := ofSource_append_newline (a := line) ";"
      (cause_ne_unterminated .start hclosed)
    rw [happ, hahead, herrors, hsemicolon, hnone]
    refine ⟨fun t ht => (List.mem_append.1 ht).imp_right fun ht => ?_, fun e he => ?_⟩
    · rw [List.mem_singleton.1 ht, Token.reline, addedSemicolon, Nat.add_comm]
    · exact .inl (by simpa using he)
  · push Not at hclosed
    obtain ⟨front, text, hsplit, happ⟩ :=
      split_append_newline_of_unclosed (by decide : '"' ∉ [';']) hclosed
    have hlist : (line ++ "\n;").toList = line.toList ++ ['\n', ';'] := by simp
    have hsource := flatMap_text_split (line.toList ++ ['\n', ';'])
    rw [happ, List.flatMap_append] at hsource
    -- Only the open text at the end is longer, and it gives no token and the last error.
    have hplace : ∀ tail, place .start (front ++ [⟨.unclosed, tail⟩])
        = place .start front
          ++ [(⟨.unclosed, tail⟩, Position.start.advance (front.flatMap Segment.text))] := by
      intro tail
      rw [place_append]
      rfl
    constructor
    · intro t ht
      simp only [ofSource, hlist, happ, hplace, List.filterMap_append] at ht
      simp only [ofSource, hsplit, hplace, List.filterMap_append]
      exact .inl ht
    · intro e he
      simp only [ofSource, hlist, happ, hplace, List.filterMap_append] at he
      simp only [ofSource, hsplit, hplace, List.filterMap_append]
      rcases List.mem_append.1 he with he | he
      · exact .inl (List.mem_append_left _ he)
      · refine .inr ?_
        rw [List.mem_singleton.1 he, ← Position.advance_append]
        have hline : Position.start.advance (front.flatMap Segment.text ++ (text ++ ['\n', ';']))
            = Position.start.advance (line.toList ++ ['\n', ';']) := by
          rw [← hsource]
          simp
        rw [hline, Position.line_advance, List.count_append]
        rfl

end Scan

/-! ### What reports are about -/

namespace Report

/-- The report is on a line of the source, and what it quotes is a token of the source. -/
structure Within (source : String) (r : Report) : Prop where
  line_pos : 1 ≤ r.line
  line_le : r.line ≤ Scan.height source
  quotes : ∀ lexeme, r.location = .atLexeme lexeme →
    ∃ t ∈ (Scan.ofSource source).stream.ahead, t.lexeme = lexeme

/-- The report is on the line after the source, at a semicolon there, at the end, or at a text that
is never closed. -/
structure Beyond (source : String) (r : Report) : Prop where
  line_eq : r.line = Scan.height source + 1
  place : r.location = .atLexeme ";" ∨ r.location = .atEnd
    ∨ r.kind = .lexical ∧ r.location = .nowhere ∧ r.message = "Unterminated string."

variable {source : String}

theorem within_lexical {e : LexicalError} (h : e ∈ (Scan.ofSource source).errors) :
    (ofLexicalError e).Within source where
  line_pos := (Scan.line_of_mem_errors h).1
  line_le := (Scan.line_of_mem_errors h).2
  quotes lexeme hl := by cases hl

theorem within_syntactic {t : Token} (h : t ∈ (Scan.ofSource source).stream.ahead)
    (message : String) : (syntactic t message).Within source where
  line_pos := (Scan.line_of_mem_ahead h).1
  line_le := (Scan.line_of_mem_ahead h).2
  quotes lexeme hl := by
    simp only [syntactic] at hl
    split at hl
    · cases hl
    · cases hl
      exact ⟨t, h, rfl⟩

theorem within_final (source message : String) :
    (syntactic (Scan.ofSource source).stream.final message).Within source where
  line_pos := by
    rw [syntactic, Scan.line_final, Scan.height]
    exact Nat.le_add_right 1 _
  line_le := Nat.le_of_eq (Scan.line_final source)
  quotes lexeme hl := by cases hl

theorem within_runtime {t : Token} (h : t ∈ (Scan.ofSource source).stream.ahead)
    (message : String) : (runtime t message).Within source where
  line_pos := (Scan.line_of_mem_ahead h).1
  line_le := (Scan.line_of_mem_ahead h).2
  quotes lexeme hl := by cases hl

end Report

namespace Compilation

/-- A report on a source is of a bad segment, at the end, or at a token. -/
theorem report_cases {source : String} {r : Report} (h : r ∈ (ofSource source).reports) :
    (∃ e ∈ (Scan.ofSource source).errors, r = .ofLexicalError e)
      ∨ (∃ message, r = .syntactic (Scan.ofSource source).stream.final message)
      ∨ ∃ t ∈ (Scan.ofSource source).stream.ahead, ∃ message, r = .syntactic t message := by
  rcases List.mem_append.1 h with h | h
  · obtain ⟨e, he, rfl⟩ := List.mem_map.1 h
    exact .inl ⟨e, he, rfl⟩
  · obtain ⟨⟨cause, site⟩, he, rfl⟩ := List.mem_map.1 h
    have hsite : site <:+ (Scan.ofSource source).stream.ahead :=
      Stmt.sited_parseAll _ List.suffix_rfl _ he
    cases site with
    | nil => exact .inr (.inl ⟨cause.message, rfl⟩)
    | cons t after => exact .inr (.inr ⟨t, hsite.subset List.mem_cons_self, cause.message, rfl⟩)

theorem within {source : String} {r : Report} (h : r ∈ (ofSource source).reports) :
    r.Within source := by
  rcases report_cases h with ⟨e, he, rfl⟩ | ⟨message, rfl⟩ | ⟨t, ht, message, rfl⟩
  · exact Report.within_lexical he
  · exact Report.within_final source message
  · exact Report.within_syntactic ht message

/-- With a semicolon on a line of its own, a line has reports that are about it or about the line
of the semicolon. -/
theorem within_or_beyond {line : String} {r : Report}
    (h : r ∈ (ofSource (line ++ "\n;")).reports) : r.Within line ∨ r.Beyond line := by
  obtain ⟨hahead, herrors⟩ := Scan.mem_append_semicolon line
  rcases report_cases h with ⟨e, he, rfl⟩ | ⟨message, rfl⟩ | ⟨t, ht, message, rfl⟩
  · rcases herrors e he with he | rfl
    · exact .inl (Report.within_lexical he)
    · exact .inr ⟨rfl, .inr (.inr ⟨rfl, rfl, rfl⟩)⟩
  · refine .inr ⟨?_, .inr (.inl rfl)⟩
    rw [Report.syntactic, Scan.line_final, Scan.height, Scan.height]
    simp [Nat.add_assoc]
  · rcases hahead t ht with ht | rfl
    · exact .inl (Report.within_syntactic ht message)
    · exact .inr ⟨rfl, .inl rfl⟩

end Compilation

namespace Session

/-- A line is read as it is, or with a semicolon if its last token closes no statement. -/
theorem closeLine_cases (line : String) :
    closeLine line = line
      ∨ closeLine line = line ++ "\n;"
        ∧ ∃ last, (Scan.ofSource line).stream.ahead.getLast? = some last
          ∧ last.kind ≠ .semicolon ∧ last.kind ≠ .rightBrace := by
  by_cases hclosed : ∀ t ∈ (Scan.ofSource line).stream.ahead.getLast?,
      t.kind = .semicolon ∨ t.kind = .rightBrace
  · exact .inl (closeLine_of_closed hclosed)
  · push Not at hclosed
    obtain ⟨last, hlast, hs, hb⟩ := hclosed
    exact .inr ⟨closeLine_of_open hlast (not_or.2 ⟨hs, hb⟩), last, hlast, hs, hb⟩

theorem sitesAll_echoing (program : List Stmt) :
    Stmt.sitesAll (echoing program) = Stmt.sitesAll program := by
  unfold echoing
  split <;> rfl

/-- The fault of a typed line is at one of its own tokens. -/
theorem within_ofFault {s : Interpreter} {line : String} {fault : Fault}
    (hreports : (Compilation.ofSource (closeLine line)).reports = [])
    (h : (Stmt.execAll (echoing (Compilation.ofSource (closeLine line)).program) s).fault
      = some fault) : (Report.ofFault fault).Within line := by
  have hsite := Stmt.mem_sitesAll_of_fault _ h
  rw [sitesAll_echoing] at hsite
  have hread : (Stmt.parseAll (Scan.ofSource (closeLine line)).stream.ahead).errors = [] :=
    Grammar.errors_parseAll_iff.2 (Compilation.reports_eq_nil_iff.1 hreports).2
  obtain ⟨hmem, hkind⟩ := Grammar.mem_sitesAll_parseAll hread _ hsite
  refine Report.within_runtime ?_ _
  rcases closeLine_cases line with hline | ⟨hline, -⟩
  · rwa [hline] at hmem
  · rw [hline] at hmem
    refine ((Scan.mem_append_semicolon line).1 _ hmem).resolve_right fun hadded => hkind ?_
    rw [hadded]
    rfl

/-- A report on a typed line is about the line, or about the further line that a semicolon is put
on where the last token of the line closes no statement. The report of a fault is about the line. -/
theorem runLine_reports {s : Session} {line : String} {r : Report}
    (h : r ∈ (s.runLine line).reports) :
    r.Within line
      ∨ r.kind ≠ .runtime ∧ r.Beyond line
        ∧ ∃ last, (Scan.ofSource line).stream.ahead.getLast? = some last
          ∧ last.kind ≠ .semicolon ∧ last.kind ≠ .rightBrace := by
  rw [runLine_eq_runAs] at h
  rcases mem_reports_runAs h with ⟨hreports, fault, rfl, hfault⟩ | ⟨h, hkind⟩
  · exact .inl (within_ofFault hreports hfault)
  · rcases closeLine_cases line with hline | ⟨hline, hlast⟩
    · rw [hline] at h
      exact .inl (Compilation.within h)
    · rw [hline] at h
      exact (Compilation.within_or_beyond h).imp_right fun hb => ⟨hkind, hb, hlast⟩

theorem runLine_reports_operand :
    let r : Report := ⟨.syntactic, 2, .atLexeme ";", "Expect expression."⟩
    r ∈ (fresh.runLine "nil +").reports
      ∧ (r.Within "nil +" ∨ r.kind ≠ .runtime ∧ r.Beyond "nil +"
        ∧ ∃ last, (Scan.ofSource "nil +").stream.ahead.getLast? = some last
          ∧ last.kind ≠ .semicolon ∧ last.kind ≠ .rightBrace) := by
  have hmem : (⟨.syntactic, 2, .atLexeme ";", "Expect expression."⟩ : Report)
      ∈ (fresh.runLine "nil +").reports := by
    have hreports : (fresh.runLine "nil +").reports
        = [⟨.syntactic, 2, .atLexeme ";", "Expect expression."⟩] := by cbv
    rw [hreports]
    exact List.mem_cons_self
  exact ⟨hmem, runLine_reports hmem⟩

/-- Not every report on a typed line is about the line: an operand that is missing at its end is
reported at the semicolon, on line two. -/
theorem runLine_reports_not_within :
    ¬ ∀ (s : Session) (line : String), ∀ r ∈ (s.runLine line).reports, r.Within line := by
  intro h
  have hreports : (fresh.runLine "nil +").reports
      = [⟨.syntactic, 2, .atLexeme ";", "Expect expression."⟩] := by cbv
  have hwithin := h fresh "nil +" ⟨.syntactic, 2, .atLexeme ";", "Expect expression."⟩ (by
    rw [hreports]
    exact List.mem_cons_self)
  have hline : 2 ≤ Scan.height "nil +" := hwithin.line_le
  exact absurd hline (by decide)

end Session

end Scriptlet
