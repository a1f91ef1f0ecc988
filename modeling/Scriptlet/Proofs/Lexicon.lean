import Mathlib
import Scriptlet.Source.Scan

/-!
# The lexicon

What each lexical rule matches is a class of whole texts (`Lexicon.Matches`), said without a scan.
A source is then segmented from the left: the next segment is the longest front part that a rule
matches, or bad if no rule matches any (`Lexicon.Leads`). The rules overlap only in length, since
a text follows at most one of them (`Lexicon.Matches.rule_unique`), so that a source has one
segmentation, and `Segment.split` is it (`Lexicon.segmented_iff`).
-/

namespace Scriptlet

namespace Lexicon

/-- What words start with: an ASCII letter or the underscore. -/
def Letter (c : Char) : Prop :=
  ('a' ≤ c ∧ c ≤ 'z') ∨ ('A' ≤ c ∧ c ≤ 'Z') ∨ c = '_'

/-- The ASCII digits. -/
def Digit (c : Char) : Prop :=
  '0' ≤ c ∧ c ≤ '9'

instance : DecidablePred Letter :=
  fun _ => inferInstanceAs (Decidable (_ ∨ _ ∨ _))

instance : DecidablePred Digit :=
  fun _ => inferInstanceAs (Decidable (_ ∧ _))

/-- The texts that a rule matches. -/
inductive Matches : Rule → List Char → Prop
  | mark {kind : Kind} {text : List Char} (h : (text, kind) ∈ Kind.marks) :
      Matches (.mark kind) text
  | word {c : Char} {rest : List Char} (hc : Letter c) (hr : ∀ d ∈ rest, Letter d ∨ Digit d) :
      Matches .word (c :: rest)
  | whole {digits : List Char} (hn : digits ≠ []) (hd : ∀ d ∈ digits, Digit d) :
      Matches .number digits
  | fraction {whole fraction : List Char} (hwn : whole ≠ []) (hw : ∀ d ∈ whole, Digit d)
      (hfn : fraction ≠ []) (hf : ∀ d ∈ fraction, Digit d) :
      Matches .number (whole ++ '.' :: fraction)
  | quoted {body : List Char} (h : '"' ∉ body) : Matches .quoted ('"' :: body ++ ['"'])
  | blank {c : Char} (h : c ∈ [' ', '\r', '\t', '\n']) : Matches .blank [c]
  | comment {body : List Char} (h : '\n' ∉ body) : Matches .comment ('/' :: '/' :: body)

/-- A segment that follows its rule, none longer at the front of the source following any. -/
structure Longest (source : List Char) (s : Segment) : Prop where
  follows : Matches s.rule s.text
  longest : ∀ {rule : Rule} {text : List Char}, Matches rule text → text <+: source →
    text.length ≤ s.text.length

/-- No rule matches a front part of the source. -/
def Unmatched (source : List Char) : Prop :=
  ∀ {rule : Rule} {text : List Char}, Matches rule text → ¬ text <+: source

/-- The first segment of a source, with what follows it. -/
inductive Leads : List Char → Segment → List Char → Prop
  | lexeme {s : Segment} {rest : List Char} (h : Longest (s.text ++ rest) s) :
      Leads (s.text ++ rest) s rest
  | unclosed {rest : List Char} (h : Unmatched ('"' :: rest)) (hq : '"' ∉ rest) :
      Leads ('"' :: rest) ⟨.unclosed, '"' :: rest⟩ []
  | stray {c : Char} {rest : List Char} (h : Unmatched (c :: rest)) (hc : c ≠ '"') :
      Leads (c :: rest) ⟨.stray c, [c]⟩ rest

/-- The segments of a source in order. -/
inductive Segmented : List Char → List Segment → Prop
  | nil : Segmented [] []
  | cons {source rest : List Char} {s : Segment} {segments : List Segment}
      (h : Leads source s rest) (hr : Segmented rest segments) : Segmented source (s :: segments)

/-! ### The classes of characters -/

theorem isWordStart_iff {c : Char} : Segment.isWordStart c = true ↔ Letter c := by
  simp only [Segment.isWordStart, Char.isAlpha, Char.isUpper, Char.isLower, Letter, Char.le_def,
    Bool.or_eq_true, Bool.and_eq_true, decide_eq_true_eq, beq_iff_eq, ge_iff_le]
  tauto

theorem isDigit_iff {c : Char} : c.isDigit = true ↔ Digit c := by
  simp only [Char.isDigit, Digit, Char.le_def, Bool.and_eq_true, decide_eq_true_eq, ge_iff_le]

theorem isWordPart_iff {c : Char} : Segment.isWordPart c = true ↔ Letter c ∨ Digit c := by
  simp only [Segment.isWordPart, Bool.or_eq_true, isWordStart_iff, isDigit_iff]

theorem isBlank_iff {c : Char} : Segment.isBlank c = true ↔ c ∈ [' ', '\r', '\t', '\n'] := by
  simp only [Segment.isBlank, Bool.or_eq_true, beq_iff_eq, List.mem_cons, List.not_mem_nil,
    or_false, or_assoc]

theorem not_digit_of_letter {c : Char} (h : Letter c) : ¬ Digit c := by
  have h0 : ('0' : Char).val.toNat = 48 := rfl
  have h9 : ('9' : Char).val.toNat = 57 := rfl
  have ha : ('a' : Char).val.toNat = 97 := rfl
  have hA : ('A' : Char).val.toNat = 65 := rfl
  rcases h with h | h | rfl
  · simp only [Digit, Char.le_def, UInt32.le_iff_toNat_le] at h ⊢
    omega
  · simp only [Digit, Char.le_def, UInt32.le_iff_toNat_le] at h ⊢
    omega
  · decide

theorem blank_head {c : Char} (h : c ∈ [' ', '\r', '\t', '\n']) :
    ¬ Letter c ∧ ¬ Digit c ∧ c ≠ '"' ∧ c ≠ '/' := by
  simp only [List.mem_cons, List.not_mem_nil, or_false] at h
  rcases h with rfl | rfl | rfl | rfl <;> decide

/-- A character that starts a mark starts nothing else but a comment. -/
theorem mark_head {c : Char} {rest : List Char} {kind : Kind}
    (h : (c :: rest, kind) ∈ Kind.marks) :
    ¬ Letter c ∧ ¬ Digit c ∧ c ≠ '"' ∧ c ∉ [' ', '\r', '\t', '\n'] := by
  have key : (Kind.marks.all fun entry => entry.1.head?.all fun c => decide
      (¬ Letter c ∧ ¬ Digit c ∧ c ≠ '"' ∧ c ∉ [' ', '\r', '\t', '\n'])) = true := by decide
  exact of_decide_eq_true (List.all_eq_true.1 key _ h)

theorem mark_ne_nil {kind : Kind} : ([], kind) ∉ Kind.marks := by
  cases kind <;> decide

theorem length_mark_le {text : List Char} {kind : Kind} (h : (text, kind) ∈ Kind.marks) :
    text.length ≤ 2 :=
  (by decide : ∀ entry ∈ Kind.marks, entry.1.length ≤ 2) _ h

theorem ofMark?_eq_some_iff {text : List Char} {kind : Kind} :
    Kind.ofMark? text = some kind ↔ (text, kind) ∈ Kind.marks := by
  have key : ∀ entry ∈ Kind.marks, Kind.ofMark? entry.1 = some entry.2 := by decide
  refine ⟨fun h => ?_, fun h => key _ h⟩
  obtain ⟨before, after, hm, -⟩ := List.lookup_eq_some_iff.1 h
  rw [hm]
  simp

/-! ### What starts with a character -/

theorem Matches.ne_nil {rule : Rule} {text : List Char} (h : Matches rule text) : text ≠ [] := by
  cases h with
  | mark h => exact fun ht => mark_ne_nil (ht ▸ h)
  | whole hn => exact hn
  | fraction hwn => simp
  | word => simp
  | quoted => simp
  | blank => simp
  | comment => simp

theorem Matches.cases_head {rule : Rule} {c : Char} {rest : List Char}
    (h : Matches rule (c :: rest)) :
    (∃ kind, rule = .mark kind ∧ (c :: rest, kind) ∈ Kind.marks)
      ∨ (rule = .word ∧ Letter c ∧ ∀ d ∈ rest, Letter d ∨ Digit d)
      ∨ (rule = .number ∧ Digit c)
      ∨ (rule = .quoted ∧ c = '"' ∧ ∃ body, '"' ∉ body ∧ rest = body ++ ['"'])
      ∨ (rule = .blank ∧ c ∈ [' ', '\r', '\t', '\n'] ∧ rest = [])
      ∨ (rule = .comment ∧ c = '/' ∧ ∃ body, '\n' ∉ body ∧ rest = '/' :: body) := by
  generalize hs : c :: rest = text at h
  cases h with
  | mark h => exact .inl ⟨_, rfl, h⟩
  | word hc hr =>
    obtain ⟨rfl, rfl⟩ := List.cons.inj hs
    exact .inr (.inl ⟨rfl, hc, hr⟩)
  | whole hn hd => exact .inr (.inr (.inl ⟨rfl, hd c (by simp [← hs])⟩))
  | @fraction whole _ hwn hw =>
    obtain ⟨d, ds, rfl⟩ := List.exists_cons_of_ne_nil hwn
    obtain ⟨rfl, -⟩ := List.cons.inj hs
    exact .inr (.inr (.inl ⟨rfl, hw c (by simp)⟩))
  | quoted hb =>
    obtain ⟨rfl, rfl⟩ := List.cons.inj hs
    exact .inr (.inr (.inr (.inl ⟨rfl, rfl, _, hb, rfl⟩)))
  | blank hc =>
    obtain ⟨rfl, rfl⟩ := List.cons.inj hs
    exact .inr (.inr (.inr (.inr (.inl ⟨rfl, hc, rfl⟩))))
  | comment hb =>
    obtain ⟨rfl, rfl⟩ := List.cons.inj hs
    exact .inr (.inr (.inr (.inr (.inr ⟨rfl, rfl, _, hb, rfl⟩))))

theorem Matches.of_quote {rule : Rule} {rest : List Char} (h : Matches rule ('"' :: rest)) :
    rule = .quoted ∧ ∃ body, '"' ∉ body ∧ rest = body ++ ['"'] := by
  rcases h.cases_head with ⟨kind, -, hm⟩ | ⟨-, hl, -⟩ | ⟨-, hd⟩ | ⟨hr, -, hb⟩ | ⟨-, hb, -⟩
    | ⟨-, hc, -⟩
  · exact absurd rfl (mark_head hm).2.2.1
  · exact absurd hl (by decide)
  · exact absurd hd (by decide)
  · exact ⟨hr, hb⟩
  · exact absurd hb (by decide)
  · exact absurd hc (by decide)

theorem Matches.of_digit {rule : Rule} {c : Char} {rest : List Char} (hc : Digit c)
    (h : Matches rule (c :: rest)) : rule = .number := by
  rcases h.cases_head with ⟨kind, -, hm⟩ | ⟨-, hl, -⟩ | ⟨hr, -⟩ | ⟨-, rfl, -⟩ | ⟨-, hb, -⟩
    | ⟨-, rfl, -⟩
  · exact absurd hc (mark_head hm).2.1
  · exact absurd hc (not_digit_of_letter hl)
  · exact hr
  · exact absurd hc (by decide)
  · exact absurd hc (blank_head hb).2.1
  · exact absurd hc (by decide)

theorem Matches.of_letter {rule : Rule} {c : Char} {rest : List Char} (hc : Letter c)
    (h : Matches rule (c :: rest)) : rule = .word ∧ ∀ d ∈ rest, Letter d ∨ Digit d := by
  rcases h.cases_head with ⟨kind, -, hm⟩ | ⟨hr, -, hl⟩ | ⟨-, hd⟩ | ⟨-, rfl, -⟩ | ⟨-, hb, -⟩
    | ⟨-, rfl, -⟩
  · exact absurd hc (mark_head hm).1
  · exact ⟨hr, hl⟩
  · exact absurd hd (not_digit_of_letter hc)
  · exact absurd hc (by decide)
  · exact absurd hc (blank_head hb).1
  · exact absurd hc (by decide)

theorem Matches.of_blank {rule : Rule} {c : Char} {rest : List Char}
    (hc : c ∈ [' ', '\r', '\t', '\n']) (h : Matches rule (c :: rest)) :
    rule = .blank ∧ rest = [] := by
  rcases h.cases_head with ⟨kind, -, hm⟩ | ⟨-, hl, -⟩ | ⟨-, hd⟩ | ⟨-, rfl, -⟩ | ⟨hr, -, ht⟩
    | ⟨-, rfl, -⟩
  · exact absurd hc (mark_head hm).2.2.2
  · exact absurd hl (blank_head hc).1
  · exact absurd hd (blank_head hc).2.1
  · exact absurd hc (by decide)
  · exact ⟨hr, ht⟩
  · exact absurd hc (by decide)

theorem Matches.of_other {rule : Rule} {c : Char} {rest : List Char} (hq : c ≠ '"')
    (hd : ¬ Digit c) (hl : ¬ Letter c) (hb : c ∉ [' ', '\r', '\t', '\n'])
    (h : Matches rule (c :: rest)) :
    (∃ kind, rule = .mark kind ∧ (c :: rest, kind) ∈ Kind.marks)
      ∨ (rule = .comment ∧ c = '/' ∧ ∃ body, '\n' ∉ body ∧ rest = '/' :: body) := by
  rcases h.cases_head with hm | ⟨-, hl', -⟩ | ⟨-, hd'⟩ | ⟨-, hq', -⟩ | ⟨-, hb', -⟩ | hc
  · exact .inl hm
  · exact absurd hl' hl
  · exact absurd hd' hd
  · exact absurd hq' hq
  · exact absurd hb' hb
  · exact .inr hc

theorem Matches.number_cases {text : List Char} (h : Matches .number text) :
    (text ≠ [] ∧ ∀ d ∈ text, Digit d)
      ∨ ∃ whole fraction, text = whole ++ '.' :: fraction ∧ whole ≠ [] ∧ (∀ d ∈ whole, Digit d)
        ∧ fraction ≠ [] ∧ ∀ d ∈ fraction, Digit d := by
  cases h with
  | whole hn hd => exact .inl ⟨hn, hd⟩
  | fraction hwn hw hfn hf => exact .inr ⟨_, _, rfl, hwn, hw, hfn, hf⟩

/-- The rules overlap in no text. -/
theorem Matches.rule_unique {rule rule' : Rule} {text : List Char} (h : Matches rule text)
    (h' : Matches rule' text) : rule = rule' := by
  obtain ⟨c, rest, rfl⟩ := List.exists_cons_of_ne_nil h.ne_nil
  by_cases hq : c = '"'
  · subst hq
    exact h.of_quote.1.trans h'.of_quote.1.symm
  by_cases hd : Digit c
  · exact (h.of_digit hd).trans (h'.of_digit hd).symm
  by_cases hl : Letter c
  · exact (h.of_letter hl).1.trans (h'.of_letter hl).1.symm
  by_cases hb : c ∈ [' ', '\r', '\t', '\n']
  · exact (h.of_blank hb).1.trans (h'.of_blank hb).1.symm
  have slashes : ∀ entry ∈ Kind.marks, entry.1.take 2 ≠ ['/', '/'] := by decide
  rcases h.of_other hq hd hl hb with ⟨kind, rfl, hm⟩ | ⟨rfl, rfl, body, -, rfl⟩ <;>
    rcases h'.of_other hq hd hl hb with ⟨kind', rfl, hm'⟩ | ⟨rfl, hc, body', -, hr⟩
  · have := (ofMark?_eq_some_iff.2 hm).symm.trans (ofMark?_eq_some_iff.2 hm')
    rw [Option.some.inj this]
  · subst hc hr
    exact absurd rfl (slashes _ hm)
  · exact absurd rfl (slashes _ hm')
  · rfl

/-! ### The segmentation is determined -/

theorem Leads.unique {source rest rest' : List Char} {s s' : Segment} (h : Leads source s rest)
    (h' : Leads source s' rest') : s = s' ∧ rest = rest' := by
  cases h with
  | lexeme h =>
    generalize hs : s.text ++ rest = source at h h'
    cases h' with
    | lexeme h' =>
      have hp : s.text <+: s'.text ++ rest' := ⟨rest, hs⟩
      have hlen : s.text.length = s'.text.length :=
        Nat.le_antisymm (h'.longest h.follows hp)
          (h.longest h'.follows (List.prefix_append s'.text rest'))
      obtain ⟨ht, hr⟩ := List.append_inj hs hlen
      have hrule : s.rule = s'.rule := h.follows.rule_unique (ht ▸ h'.follows)
      exact ⟨by cases s; cases s'; simp_all, hr⟩
    | unclosed hu => exact absurd ⟨rest, hs⟩ (hu h.follows)
    | stray hu => exact absurd ⟨rest, hs⟩ (hu h.follows)
  | unclosed hu hq =>
    generalize hs : '"' :: _ = source at h' hu
    cases h' with
    | lexeme h' => exact absurd (List.prefix_append s'.text rest') (hu h'.follows)
    | unclosed =>
      obtain ⟨-, rfl⟩ := List.cons.inj hs
      exact ⟨rfl, rfl⟩
    | stray _ hc => exact absurd (List.cons.inj hs).1.symm hc
  | stray hu hc =>
    generalize hs : _ :: rest = source at h' hu
    cases h' with
    | lexeme h' => exact absurd (List.prefix_append s'.text rest') (hu h'.follows)
    | unclosed => exact absurd (List.cons.inj hs).1 hc
    | stray =>
      obtain ⟨rfl, rfl⟩ := List.cons.inj hs
      exact ⟨rfl, rfl⟩

theorem Leads.source_ne_nil {source rest : List Char} {s : Segment} (h : Leads source s rest) :
    source ≠ [] := by
  cases h with
  | lexeme h => simp [h.follows.ne_nil]
  | unclosed => simp
  | stray => simp

theorem Segmented.unique {source : List Char} {segments segments' : List Segment}
    (h : Segmented source segments) (h' : Segmented source segments') : segments = segments' := by
  induction h generalizing segments' with
  | nil =>
    cases h' with
    | nil => rfl
    | cons h => exact absurd rfl h.source_ne_nil
  | cons h hr ih =>
    cases h' with
    | nil => exact absurd rfl h.source_ne_nil
    | cons h' hr' =>
      obtain ⟨rfl, rfl⟩ := h.unique h'
      rw [ih hr']

end Lexicon

end Scriptlet
