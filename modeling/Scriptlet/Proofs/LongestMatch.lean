import Scriptlet.Proofs.Lexicon
import Scriptlet.Report

/-!
# The scan takes the longest match

At each place the scan cuts off the longest front part that a rule matches (`Lexicon.leads_first`),
so its segments are the segmentation of the source (`Lexicon.segmented_iff`). The segments that
stand for something give the tokens, one each and in order, and the bad ones give the reports
(`Lexicon.scan_segmented`).
-/

namespace Scriptlet

namespace Lexicon

open Segment

/-! ### The longest match at each start -/

theorem length_le_takeWhile {p : Char → Bool} {text source : List Char}
    (hp : ∀ c ∈ text, p c = true) (h : text <+: source) :
    text.length ≤ (source.takeWhile p).length := by
  obtain ⟨rest, rfl⟩ := h
  rw [List.takeWhile_append_of_pos hp, List.length_append]
  omega

theorem of_mem_takeWhile {p : Char → Bool} {source : List Char} {c : Char}
    (h : c ∈ source.takeWhile p) : p c = true :=
  List.all_eq_true.1 List.all_takeWhile c h

theorem Matches.cons_of_prefix {rule : Rule} {text : List Char} {c : Char} {after : List Char}
    (hm : Matches rule text) (hp : text <+: c :: after) :
    ∃ rest, text = c :: rest ∧ rest <+: after := by
  obtain ⟨d, rest, rfl⟩ := List.exists_cons_of_ne_nil hm.ne_nil
  obtain ⟨rfl, ht⟩ := List.cons_prefix_cons.1 hp
  exact ⟨rest, rfl, ht⟩

theorem Longest.leads {source rest : List Char} {s : Segment} (h : Longest source s)
    (happ : s.text ++ rest = source) : Leads source s rest := by
  subst happ
  exact .lexeme h

/-- A number with a fraction fixes where the digits before its point end. -/
theorem takeWhile_digits_of_fraction {whole fraction source : List Char}
    (hw : ∀ d ∈ whole, Digit d) (hp : whole ++ '.' :: fraction <+: source) :
    source.takeWhile Char.isDigit = whole
      ∧ ∃ rest, source.dropWhile Char.isDigit = '.' :: (fraction ++ rest) := by
  have hdot : Char.isDigit '.' = false := rfl
  have hw' : ∀ d ∈ whole, d.isDigit = true := fun d h => isDigit_iff.2 (hw d h)
  obtain ⟨rest, rfl⟩ := hp
  rw [List.append_assoc, List.takeWhile_append_of_pos hw', List.dropWhile_append_of_pos hw',
    List.cons_append]
  simp [hdot]

theorem matches_cutNumber {c : Char} {after : List Char} (hc : Digit c) :
    Matches .number (cutNumber (c :: after)).1 := by
  have hne : (c :: after).takeWhile Char.isDigit ≠ [] := by
    simp [isDigit_iff.2 hc]
  have hall : ∀ d ∈ (c :: after).takeWhile Char.isDigit, Digit d :=
    fun d hd => isDigit_iff.1 (of_mem_takeWhile hd)
  unfold cutNumber
  split
  · split
    · rename_i hd
      refine .fraction hne hall (by simp [hd]) fun e he => ?_
      exact isDigit_iff.1 (of_mem_takeWhile he)
    · exact .whole hne hall
  · exact .whole hne hall

theorem length_digits_le_cutNumber {digits source : List Char} (hd : ∀ d ∈ digits, Digit d)
    (hp : digits <+: source) : digits.length ≤ (cutNumber source).1.length := by
  have hle : digits.length ≤ (source.takeWhile Char.isDigit).length :=
    length_le_takeWhile (fun d h => isDigit_iff.2 (hd d h)) hp
  unfold cutNumber
  split
  · split
    · simp only [List.length_append]
      omega
    · exact hle
  · exact hle

theorem length_fraction_le_cutNumber {whole fraction source : List Char}
    (hw : ∀ d ∈ whole, Digit d) (hfn : fraction ≠ []) (hf : ∀ d ∈ fraction, Digit d)
    (hp : whole ++ '.' :: fraction <+: source) :
    (whole ++ '.' :: fraction).length ≤ (cutNumber source).1.length := by
  obtain ⟨ht, rest, hr⟩ := takeWhile_digits_of_fraction hw hp
  obtain ⟨d, fraction, rfl⟩ := List.exists_cons_of_ne_nil hfn
  have hd : d.isDigit = true := isDigit_iff.2 (hf d (by simp))
  have hf' : ∀ e ∈ d :: fraction, e.isDigit = true := fun e h => isDigit_iff.2 (hf e h)
  have := length_le_takeWhile hf' ⟨rest, rfl⟩
  rw [cutNumber, ht, hr]
  simp only [List.cons_append, hd, if_true]
  simp only [List.length_append, List.length_cons, List.cons_append] at this ⊢
  omega

theorem longest_number {c : Char} {after : List Char} (hc : Digit c) :
    Longest (c :: after) ⟨.number, (cutNumber (c :: after)).1⟩ := by
  refine ⟨matches_cutNumber hc, ?_⟩
  intro rule text hm hp
  -- A digit starts nothing but numbers, so only a longer number could match more.
  have hrule : rule = .number := by
    obtain ⟨rest, rfl, -⟩ := hm.cons_of_prefix hp
    exact hm.of_digit hc
  subst hrule
  rcases hm.number_cases with ⟨-, hd⟩ | ⟨whole, fraction, rfl, -, hw, hfn, hf⟩
  · exact length_digits_le_cutNumber hd hp
  · exact length_fraction_le_cutNumber hw hfn hf hp

theorem longest_word {c : Char} {after : List Char} (hc : Letter c) :
    Longest (c :: after) ⟨.word, c :: after.takeWhile isWordPart⟩ := by
  refine ⟨.word hc fun d hd => isWordPart_iff.1 (of_mem_takeWhile hd), fun hm hp => ?_⟩
  obtain ⟨rest, rfl, ht⟩ := hm.cons_of_prefix hp
  have := length_le_takeWhile (fun d hd => isWordPart_iff.2 ((hm.of_letter hc).2 d hd)) ht
  simpa using this

theorem longest_blank {c : Char} {after : List Char} (hc : c ∈ [' ', '\r', '\t', '\n']) :
    Longest (c :: after) ⟨.blank, [c]⟩ := by
  refine ⟨.blank hc, fun hm hp => ?_⟩
  obtain ⟨rest, rfl, -⟩ := hm.cons_of_prefix hp
  obtain ⟨-, rfl⟩ := hm.of_blank hc
  exact Nat.le_refl _

theorem longest_comment {after : List Char} :
    Longest ('/' :: '/' :: after) ⟨.comment, '/' :: ('/' :: after).takeWhile isCommentPart⟩ := by
  have hslash : ('/' :: after).takeWhile isCommentPart = '/' :: after.takeWhile isCommentPart :=
    rfl
  rw [hslash]
  refine ⟨.comment fun hn => ?_, fun hm hp => ?_⟩
  · simpa [isCommentPart] using of_mem_takeWhile hn
  obtain ⟨rest, rfl, ht⟩ := hm.cons_of_prefix hp
  rcases hm.of_other (by decide) (by decide) (by decide) (by decide) with
    ⟨kind, rfl, hk⟩ | ⟨rfl, -, body, hb, rfl⟩
  · have := length_mark_le hk
    simp only [List.length_cons] at this ⊢
    omega
  · have hpart : ∀ d ∈ body, isCommentPart d = true := fun d hd => by
      simpa [isCommentPart] using fun h : d = '\n' => hb (h ▸ hd)
    simpa using length_le_takeWhile hpart (List.cons_prefix_cons.1 ht).2

theorem leads_cutQuoted (after : List Char) :
    Leads ('"' :: after) (cutQuoted after).1 (cutQuoted after).2 := by
  have happ := List.takeWhile_append_dropWhile (p := isQuotedPart) (l := after)
  have hfree : ∀ {body : List Char}, '"' ∉ body → ∀ d ∈ body, isQuotedPart d = true := by
    intro body hb d hd
    simpa [isQuotedPart] using fun h : d = '"' => hb (h ▸ hd)
  have hpart : '"' ∉ after.takeWhile isQuotedPart := fun h => by
    simpa [isQuotedPart] using of_mem_takeWhile h
  unfold cutQuoted
  split
  · rename_i hd
    rw [hd, List.append_nil] at happ
    have hq : '"' ∉ after := happ ▸ hpart
    refine .unclosed (fun hm hp => ?_) hq
    obtain ⟨rest, rfl, ht⟩ := hm.cons_of_prefix hp
    obtain ⟨-, body, -, rfl⟩ := hm.of_quote
    exact hq (ht.subset (by simp))
  · rename_i quote rest hd
    have hquote : quote = '"' := by
      have := List.head?_dropWhile_not isQuotedPart after
      rw [hd] at this
      simpa [isQuotedPart] using this
    subst hquote
    rw [hd] at happ
    refine Longest.leads (s := ⟨.quoted, _⟩) ⟨.quoted hpart, fun hm hp => ?_⟩ (by simp [happ])
    obtain ⟨text, rfl, ht⟩ := hm.cons_of_prefix hp
    obtain ⟨-, body, hb, rfl⟩ := hm.of_quote
    have := length_le_takeWhile (hfree hb) ((List.prefix_append body ['"']).trans ht)
    simp only [List.length_cons, List.length_append, List.cons_append] at this ⊢
    omega

/-- Where only marks can start and no mark of two characters does. -/
theorem leads_single {c : Char} {after : List Char}
    (hmark : ∀ {rule text}, Matches rule text → text <+: c :: after →
      ∃ kind, rule = .mark kind ∧ (text, kind) ∈ Kind.marks)
    (hpair : ∀ {d rest kind}, after = d :: rest → ([c, d], kind) ∉ Kind.marks) (hq : c ≠ '"') :
    Leads (c :: after) (single c) after := by
  have hone : ∀ {rule text}, Matches rule text → text <+: c :: after → text = [c] := by
    intro rule text hm hp
    obtain ⟨kind, -, hk⟩ := hmark hm hp
    obtain ⟨rest, rfl, ht⟩ := hm.cons_of_prefix hp
    have hlen := length_mark_le hk
    rcases rest with _ | ⟨d, _ | ⟨e, rest⟩⟩
    · rfl
    · obtain ⟨more, rfl⟩ := ht
      exact absurd hk (hpair rfl)
    · simp at hlen
  unfold single
  split
  · rename_i kind hk
    refine Longest.leads (s := ⟨.mark kind, [c]⟩)
      ⟨.mark (ofMark?_eq_some_iff.1 hk), fun hm hp => ?_⟩ rfl
    exact Nat.le_of_eq (congrArg List.length (hone hm hp))
  · rename_i hk
    refine .stray (fun hm hp => ?_) hq
    obtain ⟨kind, -, hk'⟩ := hmark hm hp
    rw [hone hm hp, ← ofMark?_eq_some_iff, hk] at hk'
    cases hk'

theorem leads_cutMark {c : Char} {after : List Char}
    (hmark : ∀ {rule text}, Matches rule text → text <+: c :: after →
      ∃ kind, rule = .mark kind ∧ (text, kind) ∈ Kind.marks) (hq : c ≠ '"') :
    Leads (c :: after) (cutMark c after).1 (cutMark c after).2 := by
  unfold cutMark
  split
  · exact leads_single hmark (fun h => by cases h) hq
  · rename_i d after
    split
    · rename_i kind hk
      refine Longest.leads (s := ⟨.mark kind, [c, d]⟩)
        ⟨.mark (ofMark?_eq_some_iff.1 hk), fun hm hp => ?_⟩ rfl
      obtain ⟨kind', -, hk'⟩ := hmark hm hp
      exact length_mark_le hk'
    · rename_i hk
      refine leads_single hmark (fun h hk' => ?_) hq
      obtain ⟨rfl, -⟩ := List.cons.inj h
      rw [← ofMark?_eq_some_iff, hk] at hk'
      cases hk'

/-- The scan cuts off the first segment of the source. -/
theorem leads_first (c : Char) (after : List Char) :
    Leads (c :: after) (first c after).1 (first c after).2 := by
  unfold first
  split
  · rename_i hq
    subst hq
    exact leads_cutQuoted after
  rename_i hq
  split
  · rename_i hd
    exact (longest_number (isDigit_iff.1 hd)).leads (cutNumber_append (c :: after))
  rename_i hd
  split
  · rename_i hl
    refine (longest_word (isWordStart_iff.1 hl)).leads ?_
    rw [List.cons_append, List.takeWhile_append_dropWhile]
  rename_i hl
  split
  · rename_i hb
    exact (longest_blank (isBlank_iff.1 hb)).leads rfl
  rename_i hb
  split
  · rename_i hs
    obtain ⟨rfl, hs⟩ := hs
    obtain ⟨rest, rfl⟩ := List.head?_eq_some_iff.1 hs
    refine longest_comment.leads ?_
    rw [List.cons_append, List.takeWhile_append_dropWhile]
  rename_i hs
  refine leads_cutMark (fun hm hp => ?_) hq
  obtain ⟨rest, rfl, ht⟩ := hm.cons_of_prefix hp
  rcases hm.of_other hq (mt isDigit_iff.2 hd) (mt isWordStart_iff.2 hl) (mt isBlank_iff.2 hb) with
    hk | ⟨-, hc, body, -, rfl⟩
  · exact hk
  · obtain ⟨more, rfl⟩ := ht
    exact absurd ⟨hc, rfl⟩ hs

theorem segmented_split (source : List Char) : Segmented source (Segment.split source) := by
  fun_induction Segment.split source with
  | case1 => exact .nil
  | case2 c after ih => exact .cons (leads_first c after) ih

/-- A source has one segmentation, the one that the scan finds. -/
theorem segmented_iff {source : List Char} {segments : List Segment} :
    Segmented source segments ↔ segments = Segment.split source := by
  refine ⟨fun h => h.unique (segmented_split source), ?_⟩
  rintro rfl
  exact segmented_split source

/-! ### Tokens and reports -/

/-- The kind and the value of the token that a segment stands for. -/
inductive Denotes : Segment → Kind → Value → Prop
  | mark {kind : Kind} {text : List Char} : Denotes ⟨.mark kind, text⟩ kind .nil
  | reserved {kind : Kind} {text : List Char} (h : (String.ofList text, kind) ∈ Kind.reserved) :
      Denotes ⟨.word, text⟩ kind .nil
  | name {text : List Char} (h : ∀ kind, (String.ofList text, kind) ∉ Kind.reserved) :
      Denotes ⟨.word, text⟩ .identifier .nil
  | whole {digits : List Char} (h : ∀ d ∈ digits, Digit d) :
      Denotes ⟨.number, digits⟩ .number
        (.number (Decimal.toFloat ⟨Decimal.natOfDigits digits, 0⟩))
  | fraction {whole fraction : List Char} (hw : ∀ d ∈ whole, Digit d)
      (hf : ∀ d ∈ fraction, Digit d) :
      Denotes ⟨.number, whole ++ '.' :: fraction⟩ .number
        (.number (Decimal.toFloat
          ⟨Decimal.natOfDigits (whole ++ fraction), -(fraction.length : Int)⟩))
  | quoted {body : List Char} :
      Denotes ⟨.quoted, '"' :: body ++ ['"']⟩ .string (.string (String.ofList body))

/-- The token writes the segment and stands for what it does. -/
def IsTokenOf (s : Segment) (t : Token) : Prop :=
  Denotes s t.kind t.literal ∧ t.lexeme = s.lexeme

/-- The report of a bad segment, its line and its column apart. -/
inductive IsReportOf : Segment → Report → Prop
  | unclosed {text : List Char} {line : Nat} :
      IsReportOf ⟨.unclosed, text⟩ ⟨.lexical, line, .nowhere, "Unterminated string."⟩
  | stray {c : Char} {text : List Char} {line column : Nat} :
      IsReportOf ⟨.stray c, text⟩
        ⟨.lexical, line, .nowhere, s!"Unexpected character '{c}' (column {column})."⟩

/-- Whether a segment stands for a token. -/
def standsForToken (s : Segment) : Bool :=
  match s.rule with
  | .mark _ | .word | .number | .quoted => true
  | .blank | .comment | .unclosed | .stray _ => false

/-- Whether a segment follows no rule. -/
def isBad (s : Segment) : Bool :=
  match s.rule with
  | .unclosed | .stray _ => true
  | .mark _ | .word | .number | .quoted | .blank | .comment => false

theorem parse?_whole {digits : List Char} (hn : digits ≠ []) (hd : ∀ d ∈ digits, Digit d) :
    Decimal.parse? digits = some ⟨Decimal.natOfDigits digits, 0⟩ := by
  have hd' : ∀ d ∈ digits, d.isDigit = true := fun d h => isDigit_iff.2 (hd d h)
  have htake : digits.takeWhile Char.isDigit = digits := by
    simpa using @List.takeWhile_append_of_pos _ _ digits [] hd'
  have hdrop : digits.dropWhile Char.isDigit = [] := by
    simpa using @List.dropWhile_append_of_pos _ _ digits [] hd'
  simp only [Decimal.parse?, htake, hdrop, hn, if_false]

theorem parse?_fraction {whole fraction : List Char} (hwn : whole ≠ [])
    (hw : ∀ d ∈ whole, Digit d) (hfn : fraction ≠ []) (hf : ∀ d ∈ fraction, Digit d) :
    Decimal.parse? (whole ++ '.' :: fraction)
      = some ⟨Decimal.natOfDigits (whole ++ fraction), -(fraction.length : Int)⟩ := by
  have hw' : ∀ d ∈ whole, d.isDigit = true := fun d h => isDigit_iff.2 (hw d h)
  have hdot : Char.isDigit '.' = false := rfl
  have htake : (whole ++ '.' :: fraction).takeWhile Char.isDigit = whole := by
    simp [List.takeWhile_append_of_pos hw', hdot]
  have hdrop : (whole ++ '.' :: fraction).dropWhile Char.isDigit = '.' :: fraction := by
    simp [List.dropWhile_append_of_pos hw', hdot]
  have hall : fraction.all Char.isDigit = true :=
    List.all_eq_true.2 fun d h => isDigit_iff.2 (hf d h)
  simp only [Decimal.parse?, htake, hdrop, hall, hwn, hfn, ne_eq, not_true_eq_false, or_self,
    if_false]

theorem ofReserved?_eq_some_iff {word : String} {kind : Kind} :
    Kind.ofReserved? word = some kind ↔ (word, kind) ∈ Kind.reserved := by
  have key : ∀ entry ∈ Kind.reserved, Kind.ofReserved? entry.1 = some entry.2 := by decide
  refine ⟨fun h => ?_, fun h => key _ h⟩
  obtain ⟨before, after, hm, -⟩ := List.lookup_eq_some_iff.1 h
  rw [hm]
  simp

theorem denotes_word (text : List Char) :
    Denotes ⟨.word, text⟩ (Kind.ofWord (String.ofList text)) .nil := by
  unfold Kind.ofWord
  rcases h : Kind.ofReserved? (String.ofList text) with _ | kind
  · refine .name fun kind hk => ?_
    rw [← ofReserved?_eq_some_iff, h] at hk
    cases hk
  · exact .reserved (ofReserved?_eq_some_iff.1 h)

/-- A segment that follows its rule, or a bad one. -/
def Proper (s : Segment) : Prop :=
  Matches s.rule s.text ∨ isBad s = true

theorem Segmented.proper {source : List Char} {segments : List Segment}
    (h : Segmented source segments) : ∀ s ∈ segments, Proper s := by
  induction h with
  | nil => simp
  | cons h hr ih =>
    refine List.forall_mem_cons.2 ⟨?_, ih⟩
    cases h with
    | lexeme h => exact .inl h.follows
    | unclosed => exact .inr rfl
    | stray => exact .inr rfl

/-- A word is a reserved one, or it is a name. -/
theorem ofWord_cases (word : String) :
    Kind.ofWord word = .identifier ∨ (word, Kind.ofWord word) ∈ Kind.reserved := by
  unfold Kind.ofWord
  rcases h : Kind.ofReserved? word with _ | kind
  · exact .inl rfl
  · exact .inr (ofReserved?_eq_some_iff.1 h)

theorem ofWord_ne_eof (word : String) : Kind.ofWord word ≠ .eof := by
  rcases ofWord_cases word with h | h
  · rw [h]
    decide
  · exact (by decide : ∀ entry ∈ Kind.reserved, entry.2 ≠ .eof) _ h

theorem Proper.token? {s : Segment} (h : Proper s) (start : Position) :
    if standsForToken s then ∃ t, s.token? start = some t ∧ t.kind ≠ .eof ∧ IsTokenOf s t
    else s.token? start = none := by
  obtain ⟨rule, text⟩ := s
  rcases h with h | h
  · simp only at h
    cases h with
    | mark h =>
      have heof := (by decide : ∀ entry ∈ Kind.marks, entry.2 ≠ .eof) _ h
      exact ⟨_, rfl, heof, .mark, rfl⟩
    | word hc hr => exact ⟨_, rfl, ofWord_ne_eof _, denotes_word _, rfl⟩
    | whole hn hd =>
      refine ⟨⟨.number, String.ofList text, _, start.line⟩, ?_, nofun, .whole hd, rfl⟩
      simp only [Segment.token?, parse?_whole hn hd, Option.map_some, Segment.lexeme]
    | @fraction whole fraction hwn hw hfn hf =>
      refine ⟨⟨.number, String.ofList (whole ++ '.' :: fraction), _, start.line⟩, ?_, nofun,
        .fraction hw hf, rfl⟩
      simp only [Segment.token?, parse?_fraction hwn hw hfn hf, Option.map_some, Segment.lexeme]
    | @quoted body h =>
      refine ⟨_, rfl, nofun, ?_, rfl⟩
      simpa using @Denotes.quoted body
    | blank h => rfl
    | comment h => rfl
  · cases rule <;> first | rfl | cases h

theorem Proper.error? {s : Segment} (h : Proper s) (start : Position) :
    if isBad s then ∃ e, s.error? start = some e ∧ IsReportOf s (Report.ofLexicalError e)
    else s.error? start = none := by
  obtain ⟨rule, text⟩ := s
  rcases h with h | h
  · simp only at h
    cases h with
    | whole hn hd => simp [isBad, Segment.error?, parse?_whole hn hd]
    | fraction hwn hw hfn hf => simp [isBad, Segment.error?, parse?_fraction hwn hw hfn hf]
    | mark h => rfl
    | word hc hr => rfl
    | quoted h => rfl
    | blank h => rfl
    | comment h => rfl
  · cases rule with
    | unclosed => exact ⟨_, rfl, .unclosed⟩
    | stray c => exact ⟨_, rfl, .stray⟩
    | _ => cases h

/-- What some elements give, one each and in order, where the others give nothing. -/
theorem forall₂_filterMap {α β : Type} {give : α → Option β} {gives : α → Bool} {R : α → β → Prop}
    {l : List α} (h : ∀ a ∈ l, if gives a then ∃ b, give a = some b ∧ R a b else give a = none) :
    List.Forall₂ R (l.filter gives) (l.filterMap give) := by
  induction l with
  | nil => exact .nil
  | cons a l ih =>
    obtain ⟨ha, hl⟩ := List.forall_mem_cons.1 h
    by_cases hg : gives a = true
    · rw [if_pos hg] at ha
      obtain ⟨b, hb, hR⟩ := ha
      rw [List.filter_cons_of_pos hg, List.filterMap_cons, hb]
      exact .cons hR (ih hl)
    · rw [if_neg hg] at ha
      rw [List.filter_cons_of_neg hg, List.filterMap_cons, ha]
      exact ih hl

theorem map_fst_place (start : Position) (segments : List Segment) :
    (place start segments).map Prod.fst = segments := by
  induction segments generalizing start with
  | nil => rfl
  | cons s segments ih => rw [place, List.map_cons, ih]

/-- What some of the segments give, one each and in order, where the others give nothing. -/
theorem forall₂_place {α : Type} {give : Segment → Position → Option α} {R : Segment → α → Prop}
    {gives : Segment → Bool} {segments : List Segment} (start : Position)
    (h : ∀ s ∈ segments, ∀ p, if gives s then ∃ a, give s p = some a ∧ R s a
      else give s p = none) :
    List.Forall₂ R (segments.filter gives)
      ((place start segments).filterMap fun p => give p.1 p.2) := by
  have hfilter : segments.filter gives
      = ((place start segments).filter fun p => gives p.1).map Prod.fst := by
    conv_lhs => rw [← map_fst_place start segments, List.filter_map]
    rfl
  rw [hfilter, List.forall₂_map_left_iff]
  refine forall₂_filterMap fun p hp => h p.1 ?_ p.2
  rw [← map_fst_place start segments]
  exact List.mem_map_of_mem hp

/-- The scan reads a source by its segmentation, which is unique and loses nothing: a token for
each segment that stands for one, then one end, and a report for each bad segment. -/
theorem scan_segmented (source : String) :
    ∃ segments, (∀ other, Segmented source.toList other ↔ other = segments)
      ∧ segments.flatMap Segment.text = source.toList
      ∧ List.Forall₂ IsTokenOf (segments.filter standsForToken)
          (Scan.ofSource source).stream.ahead
      ∧ (∀ t ∈ (Scan.ofSource source).stream.ahead, t.kind ≠ .eof)
      ∧ (Scan.ofSource source).stream.final.kind = .eof
      ∧ (Scan.ofSource source).stream.final.lexeme = ""
      ∧ (Scan.ofSource source).stream.final.literal = .nil
      ∧ List.Forall₂ IsReportOf (segments.filter isBad)
          ((Scan.ofSource source).errors.map Report.ofLexicalError) := by
  have hproper := (segmented_split source.toList).proper
  have htokens : List.Forall₂ (fun s t => t.kind ≠ .eof ∧ IsTokenOf s t) _
      (Scan.ofSource source).stream.ahead :=
    forall₂_place .start fun s hs p => (hproper s hs).token? p
  have herrors : List.Forall₂ (fun s e => IsReportOf s (Report.ofLexicalError e)) _
      (Scan.ofSource source).errors :=
    forall₂_place .start fun s hs p => (hproper s hs).error? p
  obtain ⟨heof, hflip⟩ := (List.forall₂_and_left _ _).1 htokens.flip
  exact ⟨Segment.split source.toList, fun other => segmented_iff, flatMap_text_split _, hflip.flip,
    heof, rfl, rfl, rfl, List.forall₂_map_right_iff.2 herrors⟩

end Lexicon

end Scriptlet
