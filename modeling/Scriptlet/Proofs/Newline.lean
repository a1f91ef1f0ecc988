import Scriptlet.Proofs.LongestMatch
import Scriptlet.Proofs.Relining

/-!
# Sources joined by a line end

No segment but an unclosed text goes over a line end that follows the source, so a source and
another one after a line end are cut into the segments of both (`Segment.split_append_newline`).
The tokens and errors of the second one move down by the lines of the first
(`Scan.toList_append_newline`).
-/

namespace Scriptlet

namespace Segment

/-! ### Segments -/

theorem takeWhile_append_stop {p : Char → Bool} {stop : Char} (hp : p stop = false)
    (source rest : List Char) :
    (source ++ stop :: rest).takeWhile p = source.takeWhile p := by
  induction source with
  | nil => simp [hp]
  | cons c source ih => by_cases hc : p c = true <;> simp [hc, ih]

theorem dropWhile_append_stop {p : Char → Bool} {stop : Char} (hp : p stop = false)
    (source rest : List Char) :
    (source ++ stop :: rest).dropWhile p = source.dropWhile p ++ stop :: rest := by
  induction source with
  | nil => simp [hp]
  | cons c source ih => by_cases hc : p c = true <;> simp [hc, ih]

theorem cutQuoted_append {after : List Char} (h : (cutQuoted after).1.rule ≠ .unclosed)
    (rest : List Char) :
    cutQuoted (after ++ rest) = ((cutQuoted after).1, (cutQuoted after).2 ++ rest) := by
  unfold cutQuoted at h ⊢
  cases hd : after.dropWhile isQuotedPart with
  | nil =>
    rw [hd] at h
    exact absurd rfl h
  | cons quote rest' =>
    have hlength : (after.takeWhile isQuotedPart).length ≠ after.length := by
      intro heq
      have := congrArg List.length (List.takeWhile_append_dropWhile (p := isQuotedPart) (l := after))
      rw [hd, List.length_append, List.length_cons] at this
      omega
    rw [List.dropWhile_append, hd, List.takeWhile_append, if_neg hlength]
    rfl

theorem cutNumber_append_newline (source rest : List Char) :
    cutNumber (source ++ '\n' :: rest)
      = ((cutNumber source).1, (cutNumber source).2 ++ '\n' :: rest) := by
  have hdigit : Char.isDigit '\n' = false := rfl
  unfold cutNumber
  simp only [takeWhile_append_stop hdigit, dropWhile_append_stop hdigit]
  match source.dropWhile Char.isDigit with
  | [] => rfl
  -- A point that the source ends with has no digit after it, and neither has it before a line end.
  | [point] =>
    by_cases hp : point = '.'
    · subst hp
      rfl
    · simp [hp]
  | point :: d :: after =>
    by_cases hp : point = '.'
    · subst hp
      simp only [List.cons_append]
      split
      · rw [← List.cons_append, takeWhile_append_stop hdigit, dropWhile_append_stop hdigit]
      · rfl
    · simp [hp]

theorem ofMark?_newline (c : Char) : Kind.ofMark? [c, '\n'] = none := by
  cases h : Kind.ofMark? [c, '\n'] with
  | none => rfl
  | some kind =>
    have hmarks : ∀ entry ∈ Kind.marks, '\n' ∉ entry.1 := by decide
    have hmem := Lexicon.ofMark?_eq_some_iff.1 h
    exact absurd (List.mem_cons_of_mem c List.mem_cons_self) (hmarks _ hmem)

theorem cutMark_append_newline (c : Char) (after rest : List Char) :
    cutMark c (after ++ '\n' :: rest)
      = ((cutMark c after).1, (cutMark c after).2 ++ '\n' :: rest) := by
  cases after with
  | nil =>
    simp only [List.nil_append, cutMark, ofMark?_newline]
  | cons d after =>
    simp only [List.cons_append, cutMark]
    split <;> rfl

theorem first_append_newline {c : Char} {after : List Char}
    (h : (first c after).1.rule ≠ .unclosed) (rest : List Char) :
    first c (after ++ '\n' :: rest)
      = ((first c after).1, (first c after).2 ++ '\n' :: rest) := by
  have hword : isWordPart '\n' = false := rfl
  have hcomment : isCommentPart '\n' = false := rfl
  have hhead : (after ++ '\n' :: rest).head? = some '/' ↔ after.head? = some '/' := by
    cases after <;> simp
  -- The tests of `first` in order; each decides on characters that the line end is not.
  unfold first at h ⊢
  by_cases hq : c = '"'
  · rw [if_pos hq] at h ⊢
    rw [if_pos hq]
    exact cutQuoted_append h _
  rw [if_neg hq, if_neg hq]
  by_cases hd : c.isDigit = true
  · rw [if_pos hd, if_pos hd, ← List.cons_append, cutNumber_append_newline]
  rw [if_neg hd, if_neg hd]
  by_cases hw : isWordStart c = true
  · rw [if_pos hw, if_pos hw, takeWhile_append_stop hword, dropWhile_append_stop hword]
  rw [if_neg hw, if_neg hw]
  by_cases hb : isBlank c = true
  · rw [if_pos hb, if_pos hb]
  rw [if_neg hb, if_neg hb]
  by_cases hs : c = '/' ∧ after.head? = some '/'
  · rw [if_pos hs, if_pos ⟨hs.1, hhead.2 hs.2⟩, takeWhile_append_stop hcomment,
      dropWhile_append_stop hcomment]
  · rw [if_neg hs, if_neg fun h => hs ⟨h.1, hhead.1 h.2⟩, cutMark_append_newline]

theorem split_append_newline {source : List Char} (h : ∀ s ∈ split source, s.rule ≠ .unclosed)
    (rest : List Char) :
    split (source ++ '\n' :: rest) = split source ++ ⟨.blank, ['\n']⟩ :: split rest := by
  fun_induction split source with
  | case1 =>
    rw [List.nil_append, split]
    rfl
  | case2 c after ih =>
    obtain ⟨hc, ha⟩ := List.forall_mem_cons.1 h
    rw [List.cons_append, split, first_append_newline hc, ih ha, List.cons_append]

end Segment

namespace Position

/-- The place further down, by characters and by lines. -/
def shift (p : Position) (characters lines : Nat) : Position :=
  ⟨p.offset + characters, p.line + lines, p.lineStart + characters⟩

variable {characters lines : Nat}

theorem column_shift (p : Position) : (p.shift characters lines).column = p.column := by
  rw [column, column, shift, Nat.add_sub_add_right]

theorem step_shift (p : Position) (c : Char) :
    (p.shift characters lines).step c = (p.step c).shift characters lines := by
  by_cases h : c = '\n'
  · rw [step, step, if_pos h, if_pos h]
    simp only [shift, mk.injEq]
    omega
  · rw [step, step, if_neg h, if_neg h]
    simp only [shift, mk.injEq, and_true]
    omega

theorem advance_shift (p : Position) (text : List Char) :
    (p.shift characters lines).advance text = (p.advance text).shift characters lines := by
  induction text generalizing p with
  | nil => rfl
  | cons c text ih => rw [advance_cons, advance_cons, step_shift, ih]

/-- The place after a source and a line end is the start, moved down. -/
theorem advance_newline (source : List Char) :
    (start.advance source).step '\n'
      = start.shift (source.length + 1) (1 + source.count '\n') := by
  rw [step, if_pos rfl, line_advance, offset_advance]
  simp only [shift, start, mk.injEq]
  omega

end Position

def LexicalError.reline (g : Nat → Nat) (e : LexicalError) : LexicalError :=
  { e with line := g e.line }

namespace Segment

variable {characters lines : Nat}

theorem token?_shift (s : Segment) (p : Position) :
    s.token? (p.shift characters lines) = (s.token? p).map (Token.reline (· + lines)) := by
  obtain ⟨rule, text⟩ := s
  cases rule with
  | number =>
    simp only [token?, Option.map_map]
    rfl
  | _ => rfl

theorem error?_shift (s : Segment) (p : Position) :
    s.error? (p.shift characters lines) = (s.error? p).map (LexicalError.reline (· + lines)) := by
  obtain ⟨rule, text⟩ := s
  cases rule with
  | stray c =>
    simp only [error?, Position.column_shift]
    rfl
  | unclosed =>
    simp only [error?, Position.advance_shift]
    rfl
  | number =>
    simp only [error?]
    cases Decimal.parse? text <;> rfl
  | _ => rfl

theorem place_append (start : Position) (a b : List Segment) :
    place start (a ++ b) = place start a ++ place (start.advance (a.flatMap text)) b := by
  induction a generalizing start with
  | nil => rfl
  | cons s a ih =>
    rw [List.cons_append, place, place, ih, List.flatMap_cons, Position.advance_append,
      List.cons_append]

theorem filterMap_place_shift {α : Type} {give : Segment → Position → Option α} {f : α → α}
    (h : ∀ s p, give s (p.shift characters lines) = (give s p).map f) (start : Position)
    (segments : List Segment) :
    ((place (start.shift characters lines) segments).filterMap fun p => give p.1 p.2)
      = ((place start segments).filterMap fun p => give p.1 p.2).map f := by
  induction segments generalizing start with
  | nil => rfl
  | cons s segments ih =>
    simp only [place, List.filterMap_cons, h, Position.advance_shift, ih]
    cases give s start <;> rfl

theorem rule_ne_unclosed {segments : List Segment} (start : Position)
    (h : ∀ e ∈ (place start segments).filterMap fun p => p.1.error? p.2, e.cause ≠ .unterminated) :
    ∀ s ∈ segments, s.rule ≠ .unclosed := by
  induction segments generalizing start with
  | nil => exact fun s hs => absurd hs List.not_mem_nil
  | cons s segments ih =>
    rw [place, List.filterMap_cons] at h
    simp only at h
    refine List.forall_mem_cons.2 ⟨fun hs => ?_, ih (start.advance s.text) fun e he => h e ?_⟩
    · have herror : s.error? start = some ⟨(start.advance s.text).line, .unterminated⟩ := by
        rw [error?, hs]
      rw [herror] at h
      exact h _ List.mem_cons_self rfl
    · cases s.error? start with
      | none => exact he
      | some e' => exact List.mem_cons_of_mem e' he

end Segment

namespace Scan

open Segment

/-- The number of lines that a source and a line end take up. -/
def height (source : String) : Nat :=
  1 + source.toList.count '\n'

/-- A source and another one after a line end are scanned as they are alone, but for the lines of
the second one. -/
theorem ofSource_append_newline {a : String} (b : String)
    (ha : ∀ e ∈ (ofSource a).errors, e.cause ≠ .unterminated) :
    (ofSource (a ++ "\n" ++ b)).stream.ahead
        = (ofSource a).stream.ahead ++ (ofSource b).stream.ahead.map (Token.reline (· + height a))
      ∧ (ofSource (a ++ "\n" ++ b)).stream.final
        = (ofSource b).stream.final.reline (· + height a)
      ∧ (ofSource (a ++ "\n" ++ b)).errors
        = (ofSource a).errors ++ (ofSource b).errors.map (LexicalError.reline (· + height a)) := by
  have hlist : (a ++ "\n" ++ b).toList = a.toList ++ '\n' :: b.toList := by simp
  have hplace : place .start (split (a.toList ++ '\n' :: b.toList))
      = place .start (split a.toList) ++ (⟨.blank, ['\n']⟩, Position.start.advance a.toList)
        :: place (Position.start.shift (a.toList.length + 1) (height a)) (split b.toList) := by
    rw [split_append_newline (rule_ne_unclosed .start ha), place_append, flatMap_text_split, place,
      Position.advance_cons, Position.advance_nil, Position.advance_newline]
    rfl
  have hfinal : Position.start.advance (a.toList ++ '\n' :: b.toList)
      = (Position.start.advance b.toList).shift (a.toList.length + 1) (height a) := by
    rw [Position.advance_append, Position.advance_cons, Position.advance_newline,
      Position.advance_shift]
    rfl
  refine ⟨?_, ?_, ?_⟩
  · simp only [ofSource, hlist, hplace, List.filterMap_append, List.filterMap_cons]
    rw [filterMap_place_shift token?_shift]
    rfl
  · simp only [ofSource, hlist, hfinal]
    rfl
  · simp only [ofSource, hlist, hplace, List.filterMap_append, List.filterMap_cons]
    rw [filterMap_place_shift error?_shift]
    rfl

/-- If a source leaves no text open, then what follows it on further lines is scanned as it is
alone: the tokens of the source without its end stand before the others, and its reports before the
others, where the lines of the others, and nothing else, are increased by the height of the
source. -/
theorem toList_append_newline {a : String}
    (ha : ∀ r ∈ (ofSource a).errors.map Report.ofLexicalError, r.message ≠ "Unterminated string.")
    (b : String) :
    (ofSource (a ++ "\n" ++ b)).stream.toList
        = (ofSource a).stream.toList.dropLast
          ++ (ofSource b).stream.toList.map (Token.reline (· + height a))
      ∧ (ofSource (a ++ "\n" ++ b)).errors.map Report.ofLexicalError
        = (ofSource a).errors.map Report.ofLexicalError
          ++ ((ofSource b).errors.map Report.ofLexicalError).map
            (Report.reline (· + height a)) := by
  have hclosed : ∀ e ∈ (ofSource a).errors, e.cause ≠ .unterminated := by
    intro e he hcause
    have hmessage := ha _ (List.mem_map_of_mem he)
    rw [Report.ofLexicalError, hcause] at hmessage
    exact hmessage rfl
  obtain ⟨hahead, hfinal, herrors⟩ := ofSource_append_newline b hclosed
  refine ⟨?_, ?_⟩
  · rw [TokenStream.toList, TokenStream.toList, TokenStream.toList, List.dropLast_concat, hahead,
      hfinal, List.map_append, List.append_assoc]
    rfl
  · rw [herrors, List.map_append, List.map_map, List.map_map]
    rfl

/-- The first source ends in a point that a digit would follow, in an operator that a `=` would go
on with, and in a comment that only the line end stops; both have characters that no rule
matches. -/
theorem toList_append_newline_comment :
    let a := "# \"p\nq\" 8.\n@ ! // open \""
    let b := "= 5 \"u\nv\"\n  $"
    (∀ r ∈ (ofSource a).errors.map Report.ofLexicalError, r.message ≠ "Unterminated string.")
      ∧ (ofSource (a ++ "\n" ++ b)).stream.toList
        = (ofSource a).stream.toList.dropLast
          ++ (ofSource b).stream.toList.map (Token.reline (· + 3))
      ∧ (ofSource (a ++ "\n" ++ b)).errors.map Report.ofLexicalError
        = [.lexical 1 "Unexpected character '#' (column 1).",
          .lexical 3 "Unexpected character '@' (column 1).",
          .lexical 6 "Unexpected character '$' (column 3)."] := by
  intro a b
  have hleft : (ofSource a).errors = [⟨1, .unexpected '#' 1⟩, ⟨3, .unexpected '@' 1⟩] := by
    decide +kernel
  have hright : (ofSource b).errors = [⟨3, .unexpected '$' 3⟩] := by
    decide +kernel
  have hheight : height a = 3 := by decide +kernel
  have hclosed : ∀ r ∈ (ofSource a).errors.map Report.ofLexicalError,
      r.message ≠ "Unterminated string." := by
    rw [hleft]
    decide
  obtain ⟨htokens, hreports⟩ := toList_append_newline hclosed b
  rw [hheight] at htokens hreports
  refine ⟨hclosed, htokens, ?_⟩
  rw [hreports, hleft, hright]
  decide

end Scan

end Scriptlet
