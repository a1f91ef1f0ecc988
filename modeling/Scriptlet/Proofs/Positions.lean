import Scriptlet.Proofs.LineReports

/-!
# Positions are exact

A scan counts lines as it goes, in blanks, comments and texts alike. What it counts is read off the
source before each segment (`Position.line_advance_start`, `Position.column_advance_start`): the
line ends before it give the line, the characters since the last line end the column. So each token
and each error has the line of the place where its segment stands, and the lines of the tokens never
decrease (`Lexicon.scan_located`).
-/

namespace Scriptlet

namespace Lexicon

/-- The line of what stands after a text. -/
def lineAfter (before : List Char) : Nat :=
  1 + before.count '\n'

/-- The column of what stands after a text: one more than the characters since the last line end,
or since the start. -/
def columnAfter (before : List Char) : Nat :=
  1 + (before.rtakeWhile (· ≠ '\n')).length

/-- The segments, each with all that stands before it. -/
def located (before : List Char) : List Segment → List (List Char × Segment)
  | [] => []
  | s :: rest => (before, s) :: located (before ++ s.text) rest

/-- The report of a bad segment of a source, given what stands before the segment. -/
inductive IsReportAt (source before : List Char) : Segment → Report → Prop
  | unclosed {text : List Char} :
      IsReportAt source before ⟨.unclosed, text⟩
        ⟨.lexical, lineAfter source, .nowhere, "Unterminated string."⟩
  | stray {c : Char} :
      IsReportAt source before ⟨.stray c, [c]⟩
        ⟨.lexical, lineAfter before, .nowhere,
          s!"Unexpected character '{c}' (column {columnAfter before})."⟩

end Lexicon

/-! ### What a scan counts -/

namespace Position

open Lexicon

theorem line_advance_start (before : List Char) : (start.advance before).line = lineAfter before :=
  line_advance start before

/-- The characters before a line are no more than those before a place on it. -/
theorem lineStart_advance_start (before : List Char) :
    (start.advance before).lineStart + (before.rtakeWhile (· ≠ '\n')).length
      = (start.advance before).offset := by
  induction before using List.reverseRecOn with
  | nil => rfl
  | append_singleton before c ih =>
    rw [advance_append, advance_cons, advance_nil, List.rtakeWhile_concat, step]
    by_cases hc : c = '\n'
    · rw [if_pos hc, if_neg (by simpa using hc)]
      rfl
    · simp only [if_neg hc, decide_eq_true hc, if_true, List.length_append, List.length_singleton]
      omega

theorem column_advance_start (before : List Char) :
    (start.advance before).column = columnAfter before := by
  have h := lineStart_advance_start before
  rw [column, columnAfter]
  omega

end Position

/-! ### Segments with what stands before them -/

namespace Lexicon

open Segment

theorem place_eq_located (before : List Char) (segments : List Segment) :
    place (Position.start.advance before) segments
      = (located before segments).map fun p => (p.2, Position.start.advance p.1) := by
  induction segments generalizing before with
  | nil => rfl
  | cons s segments ih =>
    rw [place, located, List.map_cons, ← Position.advance_append, ih]

theorem map_snd_located (before : List Char) (segments : List Segment) :
    (located before segments).map Prod.snd = segments := by
  induction segments generalizing before with
  | nil => rfl
  | cons s segments ih => rw [located, List.map_cons, ih]

/-- What stands before a segment, the segment and the rest are the source. -/
theorem prefix_of_mem_located {before : List Char} {segments : List Segment}
    {p : List Char × Segment} (h : p ∈ located before segments) :
    before <+: p.1 ∧ p.1 ++ p.2.text <+: before ++ segments.flatMap text := by
  induction segments generalizing before with
  | nil => exact absurd h List.not_mem_nil
  | cons s segments ih =>
    rw [List.flatMap_cons, ← List.append_assoc]
    rcases List.mem_cons.1 h with rfl | h
    · exact ⟨List.prefix_rfl, List.prefix_append _ _⟩
    · obtain ⟨hbefore, hp⟩ := ih h
      exact ⟨(List.prefix_append before s.text).trans hbefore, hp⟩

theorem pairwise_located (before : List Char) (segments : List Segment) :
    (located before segments).Pairwise fun p q => p.1 <+: q.1 := by
  induction segments generalizing before with
  | nil => exact .nil
  | cons s segments ih =>
    refine .cons (fun q hq => ?_) (ih _)
    exact (List.prefix_append before s.text).trans (prefix_of_mem_located hq).1

theorem lineAfter_mono {before before' : List Char} (h : before <+: before') :
    lineAfter before ≤ lineAfter before' :=
  Nat.add_le_add_left (h.sublist.count_le '\n') 1

theorem Segmented.text_of_stray {source : List Char} {segments : List Segment}
    (h : Segmented source segments) {c : Char} :
    ∀ s ∈ segments, s.rule = .stray c → s.text = [c] := by
  induction h with
  | nil => simp
  | cons h _ ih =>
    refine List.forall_mem_cons.2 ⟨fun hrule => ?_, ih⟩
    cases h with
    | lexeme h =>
      have hfollows := h.follows
      rw [hrule] at hfollows
      cases hfollows
    | unclosed => cases hrule
    | stray =>
      cases hrule
      rfl

/-- A text that is never closed is the last segment. -/
theorem Segmented.append_of_unclosed {source : List Char} {segments : List Segment}
    (h : Segmented source segments) {before : List Char} :
    ∀ p ∈ located before segments, p.2.rule = .unclosed → p.1 ++ p.2.text = before ++ source := by
  induction h generalizing before with
  | nil => simp [located]
  | @cons source rest s segments h _ ih =>
    refine List.forall_mem_cons.2 ⟨fun hrule => ?_, fun p hp hrule => ?_⟩
    · cases h with
      | lexeme h =>
        have hfollows := h.follows
        rw [hrule] at hfollows
        cases hfollows
      | unclosed => rfl
      | stray => cases hrule
    · have hsource : s.text ++ rest = source := by
        cases h with
        | lexeme => rfl
        | unclosed => exact List.append_nil _
        | stray => rfl
      rw [ih p hp hrule, List.append_assoc, hsource]

/-! ### Tokens and reports -/

theorem Proper.token?_located {before : List Char} {s : Segment} (h : Proper s) :
    if standsForToken s then ∃ t, s.token? (Position.start.advance before) = some t
        ∧ IsTokenOf s t ∧ t.line = lineAfter before
    else s.token? (Position.start.advance before) = none := by
  have htoken := h.token? (Position.start.advance before)
  by_cases hs : standsForToken s = true
  · rw [if_pos hs] at htoken ⊢
    obtain ⟨t, ht, -, hof⟩ := htoken
    exact ⟨t, ht, hof, (line_of_token? ht).trans (Position.line_advance_start before)⟩
  · rwa [if_neg hs] at htoken ⊢

theorem Proper.error?_located {source before : List Char} {s : Segment} (h : Proper s)
    (hstray : ∀ c, s.rule = .stray c → s.text = [c])
    (hunclosed : s.rule = .unclosed → before ++ s.text = source) :
    if isBad s then ∃ e, s.error? (Position.start.advance before) = some e
        ∧ IsReportAt source before s (Report.ofLexicalError e)
    else s.error? (Position.start.advance before) = none := by
  by_cases hbad : isBad s = true
  · rw [if_pos hbad]
    obtain ⟨rule, text⟩ := s
    cases rule with
    | unclosed =>
      refine ⟨_, rfl, ?_⟩
      rw [← Position.advance_append, hunclosed rfl, Position.line_advance_start]
      exact .unclosed
    | stray c =>
      obtain rfl : text = [c] := hstray c rfl
      refine ⟨_, rfl, ?_⟩
      rw [Position.line_advance_start, Position.column_advance_start]
      exact .stray
    | _ => cases hbad
  · have herror := h.error? (Position.start.advance before)
    rwa [if_neg hbad] at herror ⊢

/-- Tokens that stand one after the other are on lines that never decrease. -/
theorem pairwise_line {source : List Char} {places : List (List Char × Segment)}
    {tokens : List Token} (hplaces : places.Pairwise fun p q => p.1 <+: q.1)
    (hsource : ∀ p ∈ places, p.1 <+: source)
    (h : List.Forall₂ (fun p t => t.line = lineAfter p.1) places tokens) :
    (tokens ++ [Token.atEnd (lineAfter source)]).Pairwise fun t u => t.line ≤ u.line := by
  have hlines : tokens.map Token.line = (places.map Prod.fst).map lineAfter := by
    rw [List.map_map, ← List.forall₂_eq_eq_eq, List.forall₂_map_left_iff,
      List.forall₂_map_right_iff]
    exact h.flip
  have hbefore : (places.map Prod.fst ++ [source]).Pairwise (· <+: ·) := by
    refine List.pairwise_append.2 ⟨List.pairwise_map.2 hplaces, List.pairwise_singleton _ _, ?_⟩
    simpa using fun a b hab => hsource (a, b) hab
  have hall : (tokens ++ [Token.atEnd (lineAfter source)]).map Token.line
      = (places.map Prod.fst ++ [source]).map lineAfter := by
    rw [List.map_append, List.map_append, hlines]
    rfl
  rw [← List.pairwise_map (f := Token.line) (R := (· ≤ ·)), hall, List.pairwise_map]
  exact hbefore.imp lineAfter_mono

/-- Each token is on the line where its segment stands, and so is each error but that of a text
never closed, which is on the last line; a character that no rule matches is reported with its
column. The end is on the last line, and no token is on an earlier line than one before it. -/
theorem scan_located (source : String) :
    ∃ segments, (∀ other, Segmented source.toList other ↔ other = segments)
      ∧ (∀ p ∈ located [] segments, p.1 ++ p.2.text <+: source.toList)
      ∧ List.Forall₂ (fun p t => IsTokenOf p.2 t ∧ t.line = lineAfter p.1)
          ((located [] segments).filter fun p => standsForToken p.2)
          (Scan.ofSource source).stream.ahead
      ∧ (Scan.ofSource source).stream.final = .atEnd (lineAfter source.toList)
      ∧ List.Forall₂ (fun p r => IsReportAt source.toList p.1 p.2 r)
          ((located [] segments).filter fun p => isBad p.2)
          ((Scan.ofSource source).errors.map Report.ofLexicalError)
      ∧ (Scan.ofSource source).stream.toList.Pairwise fun t u => t.line ≤ u.line := by
  have hsegmented := segmented_split source.toList
  have hproper := hsegmented.proper
  have hmem : ∀ p ∈ located [] (split source.toList), p.2 ∈ split source.toList := by
    intro p hp
    rw [← map_snd_located [] (split source.toList)]
    exact List.mem_map_of_mem hp
  have hbefore : ∀ p ∈ located [] (split source.toList), p.1 ++ p.2.text <+: source.toList := by
    intro p hp
    have := (prefix_of_mem_located hp).2
    rwa [flatMap_text_split] at this
  have hplace : place .start (split source.toList) = _ := place_eq_located [] _
  have htokens : List.Forall₂ (fun p t => IsTokenOf p.2 t ∧ t.line = lineAfter p.1)
      ((located [] (split source.toList)).filter fun p => standsForToken p.2)
      (Scan.ofSource source).stream.ahead := by
    simp only [Scan.ofSource, hplace, List.filterMap_map]
    exact forall₂_filterMap fun p hp => (hproper p.2 (hmem p hp)).token?_located
  have herrors : List.Forall₂ (fun p e => IsReportAt source.toList p.1 p.2 (Report.ofLexicalError e))
      ((located [] (split source.toList)).filter fun p => isBad p.2)
      (Scan.ofSource source).errors := by
    simp only [Scan.ofSource, hplace, List.filterMap_map]
    exact forall₂_filterMap fun p hp => (hproper p.2 (hmem p hp)).error?_located
      (fun c => hsegmented.text_of_stray p.2 (hmem p hp)) (hsegmented.append_of_unclosed p hp)
  have hfinal : (Scan.ofSource source).stream.final = .atEnd (lineAfter source.toList) :=
    congrArg Token.atEnd (Position.line_advance_start source.toList)
  refine ⟨split source.toList, fun other => segmented_iff, hbefore, htokens, hfinal,
    List.forall₂_map_right_iff.2 herrors, ?_⟩
  rw [TokenStream.toList, hfinal]
  refine pairwise_line ((pairwise_located [] _).filter _) (fun p hp => ?_)
    (htokens.imp fun _ _ h => h.2)
  exact (List.prefix_append p.1 p.2.text).trans (hbefore p (List.mem_filter.1 hp).1)

/-- A text that spans two lines is on the first of them, and what follows it on the second. -/
example :
    (Scan.ofSource "\"a\nb\" x @").stream.toList.map Token.line = [1, 2, 2]
      ∧ (Scan.ofSource "\"a\nb\" x @").errors = [⟨2, .unexpected '@' 6⟩] := by
  cbv

end Lexicon

end Scriptlet
