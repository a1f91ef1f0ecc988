import Scriptlet.Proofs.Positions
import Scriptlet.Proofs.Scanner
import Scriptlet.Proofs.Spelling

/-!
# A scanner keeps to its source

A scanner moves past each segment of its source as the source is cut into segments: from each first
character on, its loops end where the segment does (`Sweep.cuts_segment`). A loop that peeks past
the end sees NUL there, which is in none of the classes that a loop goes on with, or it asks for the
end as well, so NUL within the source is no different. Round by round (`Sweep.goes_round`) the
scanner comes to the tokens and the errors of the source with all its indices in range
(`Sweep.scan_safe`).
-/

namespace Scriptlet

namespace Sweep

open Scanner Segment

variable {opened read rest after : List Char} {tokens : List Token} {errors : List LexicalError}
  {c : Char} {rounds : Nat}

/-- From within a segment, the sweep moves on to the end of the segment that was cut off and gives
its token or its error. -/
def Cuts (w : Sweep Unit) (opened read rest : List Char) (cut : Segment × List Char) : Prop :=
  ∀ tokens errors, Goes (At opened read rest tokens errors) w ()
    (At opened cut.1.text cut.2
      (tokens ++ (cut.1.token? (Position.start.advance opened)).toList)
      (errors ++ (cut.1.error? (Position.start.advance opened)).toList))

theorem line_advance_append {text : List Char} (h : '\n' ∉ text) (opened : List Char) :
    (Position.start.advance (opened ++ text)).line = (Position.start.advance opened).line := by
  rw [Position.advance_append, Position.line_advance, List.count_eq_zero.2 h, Nat.add_zero]

theorem goes_advance {counted : List Char} :
    Goes (Stands counted opened read (c :: rest) tokens errors) advance c
      (Stands counted opened (read ++ [c]) rest tokens errors) := by
  have hnext := getElem?_next opened read (c :: rest) 0
  exact goes_current.bind ((goes_char hnext).bind (goes_move.bind (goes_pure c)))

/-! ### Loops -/

theorem goes_next {p : Char → Bool} (hp : p '\x00' = false) :
    Goes (At opened read rest tokens errors) (return p (← peek)) (rest.head?.any p)
      (At opened read rest tokens errors) := by
  have hvalue : p (rest.head?.getD '\x00') = rest.head?.any p := by
    cases rest with
    | nil => exact hp
    | cons c rest => rfl
  refine goes_peek.bind ?_
  rw [hvalue]
  exact goes_pure _

theorem goes_next_ne (stop : Char) :
    Goes (At opened read rest tokens errors) (return (← peek) ≠ stop && !(← atEnd))
      (rest.head?.any (· != stop)) (At opened read rest tokens errors) := by
  have hvalue : (decide (rest.head?.getD '\x00' ≠ stop) && !rest.isEmpty)
      = rest.head?.any (· != stop) := by
    cases rest with
    | nil => exact Bool.and_false _
    | cons c rest => by_cases hc : c = stop <;> simp [hc]
  refine goes_peek.bind (goes_atEnd.bind ?_)
  rw [hvalue]
  exact goes_pure _

theorem goes_comment (hr : rest.length < rounds) :
    Goes (At opened read rest tokens errors) (comment rounds) ()
      (At opened (read ++ rest.takeWhile isCommentPart) (rest.dropWhile isCommentPart) tokens
        errors) := by
  refine goes_loop (fun _ _ => goes_next_ne '\n') (fun read c rest hc => ?_) rounds read rest hr
  exact goes_pass (bne_iff_ne.1 hc)

theorem goes_digits (hr : rest.length < rounds) :
    Goes (At opened read rest tokens errors) (digits rounds) ()
      (At opened (read ++ rest.takeWhile Char.isDigit) (rest.dropWhile Char.isDigit) tokens
        errors) := by
  refine goes_loop (fun _ _ => goes_next rfl) (fun read c rest hc => goes_pass ?_) rounds read rest
    hr
  rintro rfl
  cases hc

/-- A line end within a quoted text is counted once it is moved past. -/
theorem goes_quotedPart :
    Goes (At opened read (c :: rest) tokens errors) quotedPart ()
      (At opened (read ++ [c]) rest tokens errors) := by
  have hlast : (opened ++ (read ++ [c]) ++ rest)[opened.length + (read ++ [c]).length - 1]?
      = some c := by
    have hnext := getElem?_next opened read (c :: rest) 0
    rw [List.append_cons, List.append_assoc opened] at hnext
    rw [List.length_append, List.length_singleton]
    exact hnext
  have hpos : 1 ≤ opened.length + (read ++ [c]).length := by
    rw [List.length_append, List.length_singleton]
    omega
  by_cases hc : c = '\n'
  · refine goes_move.bind (goes_current.bind ((goes_minus hpos).bind ((goes_char hlast).bind ?_)))
    rw [if_pos hc]
    exact goes_newline (by simp) (by rw [hc, List.append_assoc])
  · refine (goes_pass hc).bind
      (goes_current.bind ((goes_minus hpos).bind ((goes_char hlast).bind ?_)))
    rw [if_neg hc]
    exact goes_pure ()

/-! ### Segments -/

theorem Cuts.of_quiet {w : Sweep Unit} {s : Segment}
    (ht : s.token? (Position.start.advance opened) = none)
    (he : s.error? (Position.start.advance opened) = none)
    (h : ∀ tokens errors, Goes (At opened read rest tokens errors) w ()
      (At opened s.text after tokens errors)) : Cuts w opened read rest (s, after) := by
  intro tokens errors
  simp only [ht, he, Option.toList_none, List.append_nil]
  exact h tokens errors

theorem cuts_token {s : Segment} {kind : Kind} {literal : Value} (h : '\n' ∉ s.text)
    (ht : s.token? (Position.start.advance opened)
      = some ⟨kind, s.lexeme, literal, (Position.start.advance opened).line⟩)
    (he : s.error? (Position.start.advance opened) = none) :
    Cuts (token kind literal) opened s.text rest (s, rest) := by
  intro tokens errors
  simp only [ht, he, Option.toList_none, Option.toList_some, List.append_nil]
  rw [← line_advance_append h opened]
  exact goes_token kind literal

theorem cuts_single {kind : Kind} (hk : Kind.ofMark? [c] = some kind) (hc : c ≠ '\n') :
    Cuts (token kind .nil) opened [c] rest (single c, rest) := by
  rw [single, hk]
  exact cuts_token (s := ⟨.mark kind, [c]⟩) (by simpa using hc.symm) rfl rfl

/-- Two characters are a mark only if an equals sign follows a mark that may be paired. -/
theorem eq_of_ofMark?_pair {d : Char} {kind : Kind} (h : Kind.ofMark? [c, d] = some kind) :
    c ∈ ['!', '=', '<', '>'] ∧ d = '=' := by
  have hmarks : ∀ entry ∈ Kind.marks, entry.1.length = 2 →
      entry.1.head?.any (· ∈ ['!', '=', '<', '>']) ∧ entry.1.getLast? = some '=' := by decide
  obtain ⟨hhead, hlast⟩ := hmarks _ (Lexicon.ofMark?_eq_some_iff.1 h) rfl
  exact ⟨of_decide_eq_true hhead, Option.some.inj hlast⟩

theorem cutMark_of_ne {d : Char} (h : ¬ (c ∈ ['!', '=', '<', '>'] ∧ d = '=')) :
    cutMark c (d :: after) = (single c, d :: after) := by
  rw [cutMark]
  split
  · rename_i kind hk
    exact absurd (eq_of_ofMark?_pair hk) h
  · rfl

theorem cutMark_of_not_mem (h : c ∉ ['!', '=', '<', '>']) :
    cutMark c after = (single c, after) := by
  cases after with
  | nil => rfl
  | cons d after => exact cutMark_of_ne fun hpair => h hpair.1

theorem cuts_operator {kind paired : Kind} (hk : Kind.ofMark? [c] = some kind)
    (hp : Kind.ofMark? [c, '='] = some paired) (hc : c ≠ '\n') :
    Cuts (operator kind paired) opened [c] rest (cutMark c rest) := by
  by_cases hrest : rest.head? = some '='
  · obtain ⟨after, rfl⟩ := List.head?_eq_some_iff.1 hrest
    rw [cutMark, hp]
    intro tokens errors
    refine (goes_accept_of_eq (by decide)).yes ?_
    exact cuts_token (s := ⟨.mark paired, [c, '=']⟩) (by simpa using hc.symm) rfl rfl _ _
  · have hcut : cutMark c rest = (single c, rest) := by
      cases rest with
      | nil => rfl
      | cons d rest => exact cutMark_of_ne fun hpair => hrest (congrArg some hpair.2)
    rw [hcut]
    intro tokens errors
    exact (goes_accept_of_ne hrest).no (cuts_single hk hc tokens errors)

theorem cuts_word (hc : isWordStart c = true) (hr : rest.length < rounds) :
    Cuts (word rounds) opened [c] rest
      (⟨.word, c :: rest.takeWhile isWordPart⟩, rest.dropWhile isWordPart) := by
  have hline : ∀ d, isWordPart d = true → d ≠ '\n' := by
    rintro d hd rfl
    cases hd
  have htext : '\n' ∉ c :: rest.takeWhile isWordPart := by
    refine List.not_mem_cons_of_ne_of_not_mem ?_ fun hmem =>
      hline _ (Lexicon.of_mem_takeWhile hmem) rfl
    rintro rfl
    cases hc
  intro tokens errors
  refine (goes_loop (fun _ _ => goes_next rfl) (fun read d rest hd => goes_pass (hline d hd)) rounds
    [c] rest hr).bind ?_
  refine goes_lexeme.bind ?_
  exact cuts_token (s := ⟨.word, c :: rest.takeWhile isWordPart⟩) htext rfl rfl _ _

theorem goes_fraction_of_digit {d : Char} (hd : d.isDigit = true)
    (hr : (d :: after).length < rounds) :
    Goes (At opened read ('.' :: d :: after) tokens errors) (fraction rounds) ()
      (At opened (read ++ '.' :: (d :: after).takeWhile Char.isDigit)
        ((d :: after).dropWhile Char.isDigit) tokens errors) := by
  have hvalue : (decide (('.' :: d :: after).head?.getD '\x00' = '.')
      && (('.' :: d :: after)[1]?.getD '\x00').isDigit) = true := hd
  refine goes_peek.bind (goes_peekNext.bind ?_)
  rw [if_pos hvalue, List.append_cons]
  exact (goes_pass (by decide)).bind (goes_digits hr)

theorem goes_fraction_of_none
    (h : ∀ d after, rest = '.' :: d :: after → d.isDigit = false) :
    Goes (At opened read rest tokens errors) (fraction rounds) ()
      (At opened read rest tokens errors) := by
  have hvalue : (decide (rest.head?.getD '\x00' = '.') && (rest[1]?.getD '\x00').isDigit)
      = false := by
    match rest with
    | [] => rfl
    | [point] => exact Bool.and_false _
    | point :: d :: after =>
      by_cases hpoint : point = '.'
      · subst hpoint
        exact h d after rfl
      · exact Bool.and_eq_false_imp.2 fun hp => absurd (of_decide_eq_true hp) hpoint
  refine goes_peek.bind (goes_peekNext.bind ?_)
  rw [if_neg (by rw [hvalue]; decide)]
  exact goes_pure ()

/-- With its digits read, what is left of a number is its fractional part. -/
theorem goes_fraction {source : List Char}
    (hr : (source.dropWhile Char.isDigit).length ≤ rounds) :
    Goes (At opened (source.takeWhile Char.isDigit) (source.dropWhile Char.isDigit) tokens errors)
      (fraction rounds) () (At opened (cutNumber source).1 (cutNumber source).2 tokens errors) := by
  rw [cutNumber]
  split
  · rename_i d after hd
    rw [hd, List.length_cons] at hr
    rw [hd]
    split
    · exact goes_fraction_of_digit ‹_› hr
    · rename_i hnot
      refine goes_fraction_of_none fun d' after' heq => ?_
      obtain ⟨rfl, -⟩ := List.cons.inj (List.cons.inj heq).2
      exact Bool.eq_false_iff.2 hnot
  · rename_i hnone
    exact goes_fraction_of_none fun d after heq => absurd heq (hnone d after)

theorem newline_notMem_number {text : List Char} (h : Lexicon.Matches .number text) :
    '\n' ∉ text := by
  have hdigit : ¬ Lexicon.Digit '\n' := by decide
  rcases h.number_cases with ⟨-, hd⟩ | ⟨whole, fraction, rfl, -, hw, -, hf⟩
  · exact fun hmem => hdigit (hd _ hmem)
  · intro hmem
    rcases List.mem_append.1 hmem with hmem | hmem
    · exact hdigit (hw _ hmem)
    · exact hdigit (hf _ ((List.mem_cons.1 hmem).resolve_left (by decide)))

theorem cuts_number (hc : c.isDigit = true) (hr : rest.length < rounds) :
    Cuts (number rounds) opened [c] rest
      (⟨.number, (cutNumber (c :: rest)).1⟩, (cutNumber (c :: rest)).2) := by
  have hmatches : Lexicon.Matches .number (cutNumber (c :: rest)).1 :=
    Lexicon.matches_cutNumber (Lexicon.isDigit_iff.1 hc)
  have hline := newline_notMem_number hmatches
  intro tokens errors
  have hdigits : Goes (At opened [c] rest tokens errors) (digits rounds) ()
      (At opened ((c :: rest).takeWhile Char.isDigit) ((c :: rest).dropWhile Char.isDigit) tokens
        errors) := by
    rw [List.takeWhile_cons_of_pos hc, List.dropWhile_cons_of_pos hc]
    exact goes_digits hr
  have hle : ((c :: rest).dropWhile Char.isDigit).length ≤ rounds := by
    rw [List.dropWhile_cons_of_pos hc]
    exact (List.length_dropWhile_le _ _).trans hr.le
  refine hdigits.bind ((goes_fraction hle).bind (goes_lexeme.bind ?_))
  generalize cutNumber (c :: rest) = cut at hline
  cases hparse : Decimal.parse? cut.1 with
  | some d =>
    exact cuts_token (s := ⟨.number, cut.1⟩) hline
      (by simp only [token?, hparse, Option.map_some]) (by simp only [error?, hparse]) _ _
  | none =>
    simp only [token?, error?, hparse, Option.map_none, Option.toList_none, List.append_nil,
      Option.toList_some]
    rw [← line_advance_append hline opened]
    exact goes_report .malformedNumber

/-- What stands between the quotes of a text is cut out from after its first character up to its
last one. -/
theorem goes_body {quote quote' : Char} {body : List Char} :
    Goes (At opened (quote :: body ++ [quote']) rest tokens errors)
      (slice (opened.length + 1) (opened.length + (quote :: body ++ [quote']).length - 1)) body
      (At opened (quote :: body ++ [quote']) rest tokens errors) := by
  have hfirst : opened.length + 1 = (opened ++ [quote]).length := by
    rw [List.length_append, List.length_singleton]
  have hlast : opened.length + (quote :: body ++ [quote']).length - 1
      = (opened ++ [quote] ++ body).length := by
    simp only [List.length_append, List.length_cons, List.length_nil]
    omega
  have hsource : opened ++ (quote :: body ++ [quote']) ++ rest
      = opened ++ [quote] ++ body ++ (quote' :: rest) := by
    simp only [List.append_assoc, List.cons_append, List.nil_append]
  rw [hfirst, hlast]
  exact goes_slice hsource

theorem goes_quotedLoop (hr : after.length < rounds) :
    Goes (At opened ['"'] after tokens errors)
      (loop (return (← peek) ≠ '"' && !(← atEnd)) quotedPart rounds) ()
      (At opened ('"' :: after.takeWhile isQuotedPart) (after.dropWhile isQuotedPart) tokens
        errors) :=
  goes_loop (fun _ _ => goes_next_ne '"') (fun _ _ _ _ => goes_quotedPart) rounds ['"'] after hr

theorem cuts_quoted (hr : after.length < rounds) :
    Cuts (quoted rounds) opened ['"'] after (cutQuoted after) := by
  have hline : (Position.start.advance (opened ++ ['"'])).line
      = (Position.start.advance opened).line := line_advance_append (by decide) opened
  have hafter := List.takeWhile_append_dropWhile (p := isQuotedPart) (l := after)
  intro tokens errors
  refine goes_line.bind ((goes_quotedLoop hr).bind ?_)
  rw [hline, cutQuoted]
  split
  · rename_i hrest
    rw [hrest, List.append_nil] at hafter
    rw [hrest, hafter]
    simp only [token?, error?, Option.toList_none, Option.toList_some, List.append_nil,
      ← Position.advance_append]
    exact goes_atEnd.yes (goes_report .unterminated)
  · rename_i quote rest hrest
    obtain rfl : quote = '"' := by
      have hnot := List.head?_dropWhile_not isQuotedPart after
      rw [hrest] at hnot
      simpa [isQuotedPart] using hnot
    have hpos : 1 ≤ opened.length + ('"' :: after.takeWhile isQuotedPart ++ ['"']).length := by
      simp only [List.length_append, List.length_cons]
      omega
    rw [hrest]
    simp only [token?, error?, Option.toList_none, Option.toList_some, List.append_nil,
      List.cons_append, List.tail_cons, List.dropLast_concat]
    exact goes_atEnd.no ((goes_pass (by decide)).bind (goes_start.bind (goes_current.bind
      ((goes_minus hpos).bind (goes_body.bind (goes_lexeme.bind (goes_emit _)))))))

theorem cuts_slash (hr : rest.length < rounds) :
    Cuts (do if ← accept '/' then comment rounds else token .slash .nil) opened ['/'] rest
      (first '/' rest) := by
  by_cases hrest : rest.head? = some '/'
  · obtain ⟨after, rfl⟩ := List.head?_eq_some_iff.1 hrest
    refine Cuts.of_quiet (s := ⟨.comment, '/' :: ('/' :: after).takeWhile isCommentPart⟩)
      rfl rfl fun tokens errors => ?_
    exact (goes_accept_of_eq (by decide)).yes (goes_comment (Nat.lt_of_succ_lt hr))
  · have hcut : first '/' rest = (single '/', rest) := by
      rw [← cutMark_of_not_mem (c := '/') (by decide)]
      exact if_neg fun hslash => hrest (And.right hslash)
    rw [hcut]
    intro tokens errors
    exact (goes_accept_of_ne hrest).no (cuts_single rfl (by decide) tokens errors)

theorem lineStart_le_length (opened : List Char) :
    (Position.start.advance opened).lineStart ≤ opened.length := by
  rw [← Position.offset_advance_start, ← Position.lineStart_advance_start]
  exact Nat.le_add_right _ _

theorem cuts_stray (hc : c ≠ '\n') :
    Cuts (do report (.unexpected c ((← minus (← start) (← lineStart)) + 1))) opened [c] rest
      (⟨.stray c, [c]⟩, rest) := by
  have hline : (Position.start.advance (opened ++ [c])).line
      = (Position.start.advance opened).line := line_advance_append (by simpa using hc.symm) opened
  have hlineStart : (Position.start.advance (opened ++ [c])).lineStart
      = (Position.start.advance opened).lineStart := by
    rw [Position.advance_concat_of_ne hc]
  intro tokens errors
  refine goes_start.bind (goes_lineStart.bind ?_)
  simp only [token?, error?, Option.toList_none, Option.toList_some, List.append_nil,
    Position.column, Position.offset_advance_start]
  rw [hlineStart, ← hline]
  exact (goes_minus (lineStart_le_length opened)).bind (goes_report _)

theorem first_of_other (hq : c ≠ '"') (hd : ¬ c.isDigit = true) (hl : ¬ isWordStart c = true)
    (hb : ¬ isBlank c = true) (hs : c ≠ '/') (hp : c ∉ ['!', '=', '<', '>']) :
    first c rest = (single c, rest) := by
  rw [first, if_neg hq, if_neg hd, if_neg hl, if_neg hb, if_neg fun hslash => hs hslash.1,
    cutMark_of_not_mem hp]

/-- What follows the first character of a segment, unless that is a line end. -/
theorem cuts_goOn (hc : c ≠ '\n') (hr : rest.length < rounds) :
    Cuts (goOn rounds c) opened [c] rest (first c rest) := by
  unfold goOn
  split
  · exact cuts_operator rfl rfl hc
  · exact cuts_operator rfl rfl hc
  · exact cuts_operator rfl rfl hc
  · exact cuts_operator rfl rfl hc
  · exact cuts_slash hr
  · exact Cuts.of_quiet (s := ⟨.blank, _⟩) rfl rfl fun tokens errors => goes_pure ()
  · exact Cuts.of_quiet (s := ⟨.blank, _⟩) rfl rfl fun tokens errors => goes_pure ()
  · exact Cuts.of_quiet (s := ⟨.blank, _⟩) rfl rfl fun tokens errors => goes_pure ()
  · exact absurd rfl hc
  · exact cuts_quoted hr
  · rename_i hbang hequal hless hgreater hslash hspace hreturn htab _ hquote
    have hp : c ∉ ['!', '=', '<', '>'] := by
      simp only [List.mem_cons, List.not_mem_nil, or_false, not_or]
      exact ⟨hbang, hequal, hless, hgreater⟩
    have hb : ¬ isBlank c = true := by
      simp only [Lexicon.isBlank_iff, List.mem_cons, List.not_mem_nil, or_false, not_or]
      exact ⟨hspace, hreturn, htab, hc⟩
    split
    · rename_i kind hk
      obtain ⟨hl, hd, -, -⟩ := Lexicon.mark_head (Lexicon.ofMark?_eq_some_iff.1 hk)
      rw [first_of_other hquote (mt Lexicon.isDigit_iff.1 hd) (mt Lexicon.isWordStart_iff.1 hl) hb
        hslash hp]
      exact cuts_single hk hc
    · rename_i hk
      split
      · rename_i hd
        rw [first, if_neg hquote, if_pos hd]
        exact cuts_number hd hr
      rename_i hd
      split
      · rename_i hl
        rw [first, if_neg hquote, if_neg hd, if_pos hl]
        exact cuts_word hl hr
      rename_i hl
      rw [first_of_other hquote hd hl hb hslash hp, single, hk]
      exact cuts_stray hc

theorem goes_first :
    Goes (At opened [] (c :: rest) tokens errors) advance c
      (Stands opened opened [c] rest tokens errors) := by
  rw [At, List.append_nil]
  exact goes_advance

/-- One segment, from its first character on. A line end is counted by what follows it, any other
character when it is moved past. -/
theorem cuts_segment (hr : rest.length < rounds) :
    Cuts (segment rounds) opened [] (c :: rest) (first c rest) := by
  by_cases hc : c = '\n'
  · subst hc
    have hcut : first '\n' rest = (⟨.blank, ['\n']⟩, rest) := rfl
    rw [hcut]
    exact Cuts.of_quiet rfl rfl fun tokens errors =>
      goes_first.bind (goes_newline (List.cons_ne_nil _ _) rfl)
  · intro tokens errors
    have hcount : Goes (At opened [] (c :: rest) tokens errors) advance c
        (At opened [c] rest tokens errors) := goes_first.mono fun _ hm => hm.count hc
    exact hcount.bind (cuts_goOn hc hr tokens errors)

/-! ### Rounds -/

/-- The indices at the beginning of the round that starts after a text. -/
def beginning (opened : List Char) : Indices :=
  ⟨opened.length, opened.length, (Position.start.advance opened).lineStart⟩

theorem goes_enter :
    Goes (At opened read rest tokens errors) enter (beginning (opened ++ read))
      (At (opened ++ read) [] rest tokens errors) := by
  intro m hm
  have hlength : (opened ++ read).length = opened.length + read.length := List.length_append
  have hindices : Indices.mk m.current m.current m.lineStart = beginning (opened ++ read) := by
    rw [beginning, hlength, hm.current, hm.lineStart]
  refine ⟨_, congrArg (fun i => some (i, _)) hindices, ?_⟩
  rw [At, List.append_nil]
  exact { hm with
    source := by rw [hm.source, List.append_nil]
    start := hm.current.trans hlength.symm
    current := hm.current.trans hlength.symm
    safe := ⟨hm.safe.rounds, hm.safe.changes⟩ }

theorem goes_finish (h : read ≠ []) :
    Goes (At opened read rest tokens errors) (finish (beginning opened)) ()
      (At opened read rest tokens errors) := by
  intro m hm
  have hpos := List.length_pos_iff.2 h
  have hlength := hm.length_source
  have hcurrent := hm.current
  refine ⟨_, rfl, { hm with safe := ⟨List.forall_mem_cons.2 ⟨⟨?_, rfl, ?_, ?_⟩, hm.safe.rounds⟩,
    hm.safe.changes⟩ }⟩
  · exact lineStart_le_length opened
  · show opened.length < m.source.length
    omega
  · show opened.length < m.current
    omega

theorem text_first_ne_nil (c : Char) (after : List Char) : (first c after).1.text ≠ [] := by
  intro htext
  have happ := first_append c after
  have hlt := length_first_lt c after
  rw [htext, List.nil_append] at happ
  rw [happ] at hlt
  exact Nat.lt_irrefl _ hlt

theorem goes_round (hr : rest.length < rounds) :
    Goes (At opened read (c :: rest) tokens errors) (round rounds) ()
      (At (opened ++ read) (first c rest).1.text (first c rest).2
        (tokens ++ ((first c rest).1.token? (Position.start.advance (opened ++ read))).toList)
        (errors ++ ((first c rest).1.error? (Position.start.advance (opened ++ read))).toList)) :=
  goes_enter.bind ((cuts_segment hr _ _).bind (goes_finish (text_first_ne_nil c rest)))

theorem goes_notAtEnd :
    Goes (At opened read rest tokens errors) (return !(← atEnd)) (!rest.isEmpty)
      (At opened read rest tokens errors) :=
  goes_atEnd.bind (goes_pure _)

theorem goes_rounds : ∀ (n : Nat) (opened read rest : List Char) (tokens : List Token)
    (errors : List LexicalError), rest.length < n → rest.length ≤ rounds →
    ∃ opened' read', opened' ++ read' = opened ++ read ++ rest
      ∧ Goes (At opened read rest tokens errors) (loop (return !(← atEnd)) (round rounds) n) ()
        (At opened' read' []
          (tokens ++ (place (Position.start.advance (opened ++ read)) (split rest)).filterMap
            fun p => p.1.token? p.2)
          (errors ++ (place (Position.start.advance (opened ++ read)) (split rest)).filterMap
            fun p => p.1.error? p.2))
  | n + 1, opened, read, [], tokens, errors, _, _ => by
    refine ⟨opened, read, (List.append_nil _).symm, ?_⟩
    rw [split, place, List.filterMap_nil, List.filterMap_nil, List.append_nil, List.append_nil]
    exact goes_notAtEnd.no (goes_pure ())
  | n + 1, opened, read, c :: rest, tokens, errors, hn, hr => by
    have happ := first_append c rest
    have hlt := length_first_lt c rest
    obtain ⟨opened', read', hsource, hgoes⟩ := goes_rounds n (opened ++ read) (first c rest).1.text
      (first c rest).2
      (tokens ++ ((first c rest).1.token? (Position.start.advance (opened ++ read))).toList)
      (errors ++ ((first c rest).1.error? (Position.start.advance (opened ++ read))).toList)
      (by omega) (by omega)
    refine ⟨opened', read', by rw [hsource, List.append_assoc, happ], ?_⟩
    rw [split, place, ← Position.advance_append, List.filterMap_eq_flatMap_toList,
      List.filterMap_eq_flatMap_toList, List.flatMap_cons, List.flatMap_cons, ← List.append_assoc,
      ← List.append_assoc, ← List.filterMap_eq_flatMap_toList, ← List.filterMap_eq_flatMap_toList]
    exact goes_notAtEnd.yes ((goes_round hr).bind hgoes)

end Sweep

/-! ### Numbers -/

namespace Lexicon

/-- Only bad segments are reported, so that no number is. -/
theorem Proper.cause_ne {s : Segment} {p : Position} {e : LexicalError} (h : Proper s)
    (he : s.error? p = some e) : e.cause ≠ .malformedNumber := by
  obtain ⟨rule, text⟩ := s
  cases rule with
  | number => cases (show Segment.error? ⟨.number, text⟩ p = none from h.error? p).symm.trans he
  | unclosed => cases he; nofun
  | stray c => cases he; nofun
  | _ => cases he

theorem Spelled.matches_number {t : Token} (h : Spelled t) (hk : t.kind = .number) :
    Matches .number t.lexeme.toList := by
  obtain ⟨rule, hm, hs, htoken⟩ := h
  have ht := htoken ⟨0, t.line, 0⟩
  cases rule with
  | number => exact hm
  | mark kind =>
    obtain ⟨hkind, -⟩ := Token.mk.inj (Option.some.inj ht)
    cases hm with
    | mark hm =>
      exact absurd (hkind.trans hk) ((by decide : ∀ entry ∈ Kind.marks, entry.2 ≠ .number) _ hm)
  | word =>
    obtain ⟨hkind, -⟩ := Token.mk.inj (Option.some.inj ht)
    rcases ofWord_cases (Segment.lexeme ⟨.word, t.lexeme.toList⟩) with hword | hword
    · exact absurd (hword.symm.trans (hkind.trans hk)) (by decide)
    · exact absurd (hkind.trans hk)
        ((by decide : ∀ entry ∈ Kind.reserved, entry.2 ≠ .number) _ hword)
  | quoted =>
    obtain ⟨hkind, -⟩ := Token.mk.inj (Option.some.inj ht)
    exact absurd (hkind.trans hk) (by decide)
  | blank | comment | unclosed | stray => cases hs

end Lexicon

/-! ### Whole sources -/

theorem Scan.cause_ne_of_mem_errors {source : String} {e : LexicalError}
    (h : e ∈ (ofSource source).errors) : e.cause ≠ .malformedNumber := by
  obtain ⟨⟨s, p⟩, hmem, he⟩ := List.mem_filterMap.1 h
  exact (Lexicon.proper_of_mem_place hmem).cause_ne he

theorem Scan.matches_number_of_mem_stream {source : String} {t : Token}
    (h : t ∈ (ofSource source).stream.toList) (hk : t.kind = .number) :
    Lexicon.Matches .number t.lexeme.toList := by
  rcases List.mem_append.1 h with h | h
  · exact (spelled_of_mem_ahead h).matches_number hk
  · rw [List.mem_singleton.1 h] at hk
    cases hk

namespace Sweep

open Scanner

theorem at_start (source : List Char) : At [] [] source [] [] { source := source } where
  source := rfl
  start := rfl
  current := rfl
  line := rfl
  lineStart := rfl
  tokens := rfl
  errors := rfl
  safe := ⟨List.forall_mem_nil _, List.forall_mem_nil _⟩

/-- With more rounds than there are characters a scan has a result, the tokens and the errors of the
source: it takes no character from outside of the source, cuts nothing out that does not lie in it
and subtracts no larger index. Every round begins at a character, on a line that starts no later,
and moves on; once its first character is read, the indices stay apart and within the source. Each
number is digits, with a point and more digits or without, and none is reported. -/
theorem scan_safe (source : String) (rounds : Nat) (hr : source.toList.length < rounds) :
    ∃ m, scan rounds { source := source.toList } = some ((), m)
      ∧ m.tokens = (Scan.ofSource source).stream.toList
      ∧ m.errors = (Scan.ofSource source).errors
      ∧ (∀ p ∈ m.rounds, p.1.lineStart ≤ p.1.start ∧ p.1.start = p.1.current
          ∧ p.1.current < source.toList.length ∧ p.1.current < p.2.current)
      ∧ (∀ i ∈ m.changes, i.start < i.current ∧ i.current ≤ source.toList.length)
      ∧ (∀ e ∈ m.errors, e.cause ≠ .malformedNumber)
      ∧ ∀ t ∈ m.tokens, t.kind = .number → Lexicon.Matches .number t.lexeme.toList := by
  obtain ⟨opened, read, hsource, hgoes⟩ :=
    goes_rounds rounds [] [] source.toList [] [] hr hr.le
  have hscan : Goes (At [] [] source.toList [] []) (scan rounds) () _ :=
    hgoes.bind (goes_line.bind (goes_emit _))
  obtain ⟨m, hresult, hm⟩ := hscan _ (at_start source.toList)
  have htext : m.source = source.toList := by
    rw [hm.source, hsource, List.append_nil]
    rfl
  have htokens : m.tokens = (Scan.ofSource source).stream.toList := by
    rw [hm.tokens, hsource]
    rfl
  have herrors : m.errors = (Scan.ofSource source).errors := hm.errors
  refine ⟨m, hresult, htokens, herrors, htext ▸ hm.safe.rounds, htext ▸ hm.safe.changes, ?_, ?_⟩
  · rw [herrors]
    exact fun e => Scan.cause_ne_of_mem_errors
  · rw [htokens]
    exact fun t => Scan.matches_number_of_mem_stream

/-- A text over a line end, a number with a point after it, NUL within the source, and a text that
is never closed. -/
theorem scan_safe_text_over_lines :
    ∃ m, scan 40 { source := "\"a\nb\" 1.5 1. \x00@ // c\n\"x".toList } = some ((), m)
      ∧ m.tokens.map Token.lexeme = ["\"a\nb\"", "1.5", "1", ".", ""]
      ∧ m.errors = [⟨2, .unexpected '\x00' 11⟩, ⟨2, .unexpected '@' 12⟩, ⟨3, .unterminated⟩]
      ∧ m.rounds.map (fun p => (p.1.start, p.1.lineStart))
        = [(21, 21), (20, 3), (16, 3), (15, 3), (14, 3), (13, 3), (12, 3), (11, 3), (10, 3), (9, 3),
          (6, 3), (5, 3), (0, 0)]
      ∧ (∀ p ∈ m.rounds, p.1.lineStart ≤ p.1.start ∧ p.1.start = p.1.current
          ∧ p.1.current < 23 ∧ p.1.current < p.2.current)
      ∧ (∀ i ∈ m.changes, i.start < i.current ∧ i.current ≤ 23)
      ∧ (∀ e ∈ m.errors, e.cause ≠ .malformedNumber)
      ∧ ∀ t ∈ m.tokens, t.kind = .number → Lexicon.Matches .number t.lexeme.toList := by
  have hlength : "\"a\nb\" 1.5 1. \x00@ // c\n\"x".toList.length = 23 := by decide +kernel
  have hrounds : (scan 40 { source := "\"a\nb\" 1.5 1. \x00@ // c\n\"x".toList }).map
      (fun result => result.2.rounds.map fun p => (p.1.start, p.1.lineStart))
      = some [(21, 21), (20, 3), (16, 3), (15, 3), (14, 3), (13, 3), (12, 3), (11, 3), (10, 3),
        (9, 3), (6, 3), (5, 3), (0, 0)] := by
    decide +kernel
  obtain ⟨m, hresult, htokens, herrors, hsafe⟩ :=
    scan_safe "\"a\nb\" 1.5 1. \x00@ // c\n\"x" 40 (by rw [hlength]; decide)
  rw [hresult] at hrounds
  rw [hlength] at hsafe
  refine ⟨m, hresult, ?_, ?_, Option.some.inj hrounds, hsafe⟩
  · rw [htokens]
    decide +kernel
  · rw [herrors]
    decide +kernel

end Sweep

end Scriptlet
