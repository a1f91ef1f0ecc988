import Scriptlet.Proofs.LongestMatch
import Scriptlet.Proofs.Relining

/-!
# Lexemes between blanks

A lexeme that a blank or the end follows is cut off whole, since no rule matches it together with
the blank (`Lexicon.longest_of_blank`). So a source that writes the lexemes of tokens with blanks
between them is scanned into these tokens, but for their lines, and without an error
(`Lexicon.ofSource_spaced`).
-/

namespace Scriptlet

namespace Lexicon

open Segment

/-- A source that writes lexemes in order, blanks after each but the last, and blanks at both ends
as may be. -/
inductive Spaced : List String → List Char → Prop
  | nil : Spaced [] []
  | blank {c : Char} {lexemes : List String} {source : List Char}
      (hc : c ∈ [' ', '\r', '\t', '\n']) (h : Spaced lexemes source) : Spaced lexemes (c :: source)
  | lexeme {lexeme : String} {lexemes : List String} {source : List Char}
      (hsep : ∀ c ∈ source.head?, c ∈ [' ', '\r', '\t', '\n']) (h : Spaced lexemes source) :
      Spaced (lexeme :: lexemes) (lexeme.toList ++ source)

/-- The token is the one that its lexeme stands for, wherever that is written. -/
def Spelled (t : Token) : Prop :=
  ∃ rule, Matches rule t.lexeme.toList ∧ standsForToken ⟨rule, t.lexeme.toList⟩ = true
    ∧ ∀ start : Position,
      Segment.token? ⟨rule, t.lexeme.toList⟩ start = some { t with line := start.line }

theorem Spaced.blanks {lexemes : List String} {source : List Char} (h : Spaced lexemes source) :
    ∀ {gap : List Char}, (∀ c ∈ gap, c ∈ [' ', '\r', '\t', '\n']) → Spaced lexemes (gap ++ source)
  | [], _ => h
  | _ :: _, hgap => by
    obtain ⟨hc, hgap⟩ := List.forall_mem_cons.1 hgap
    exact .blank hc (h.blanks hgap)

/-- Any blanks after each lexeme, at least one, space out a source. -/
theorem spaced_flatMap : ∀ (pieces : List (String × List Char)),
    (∀ p ∈ pieces, p.2 ≠ [] ∧ ∀ c ∈ p.2, c ∈ [' ', '\r', '\t', '\n']) →
    Spaced (pieces.map Prod.fst) (pieces.flatMap fun p => p.1.toList ++ p.2)
  | [], _ => .nil
  | (lexeme, gap) :: pieces, h => by
    obtain ⟨⟨hne, hgap⟩, hrest⟩ := List.forall_mem_cons.1 h
    obtain ⟨c, gap, rfl⟩ := List.exists_cons_of_ne_nil hne
    rw [List.flatMap_cons, List.append_assoc]
    refine .lexeme (fun e he => ?_) ((spaced_flatMap pieces hrest).blanks hgap)
    obtain rfl : c = e := by simpa using he
    exact hgap c List.mem_cons_self

/-! ### The longest match before a blank -/

theorem Matches.mem_number {text : List Char} (h : Matches .number text) :
    ∀ c ∈ text, Digit c ∨ c = '.' := by
  rcases h.number_cases with ⟨-, hd⟩ | ⟨whole, fraction, rfl, -, hw, -, hf⟩
  · exact fun c hc => .inl (hd c hc)
  · intro c hc
    rcases List.mem_append.1 hc with hc | hc
    · exact .inl (hw c hc)
    · rcases List.mem_cons.1 hc with rfl | hc
      · exact .inr rfl
      · exact .inl (hf c hc)

/-- What stands for a token goes on with no blank. -/
theorem Matches.not_matches_blank {rule rule' : Rule} {text more : List Char} {c : Char}
    (h : Matches rule text) (htoken : standsForToken ⟨rule, text⟩ = true)
    (hc : c ∈ [' ', '\r', '\t', '\n']) : ¬ Matches rule' (text ++ c :: more) := by
  intro h'
  have hmem : c ∈ text ++ c :: more := List.mem_append_right text List.mem_cons_self
  obtain ⟨d, rest, rfl⟩ := List.exists_cons_of_ne_nil h.ne_nil
  have hmem' : c ∈ rest ++ c :: more := List.mem_append_right rest List.mem_cons_self
  obtain ⟨hletter, hdigit, -, hslash⟩ := blank_head hc
  rw [List.cons_append] at h' hmem
  by_cases hq : d = '"'
  · subst hq
    obtain ⟨-, body, -, rfl⟩ := h.of_quote
    obtain ⟨-, body', hb', heq⟩ := h'.of_quote
    -- The quote at the end of the text is within the longer one.
    have hbody : body' = body ++ '"' :: (c :: more).dropLast := by
      have := congrArg List.dropLast heq
      simpa [List.dropLast_append_of_ne_nil] using this.symm
    rw [hbody] at hb'
    exact hb' (List.mem_append_right body List.mem_cons_self)
  by_cases hd : Digit d
  · have hrule := h'.of_digit hd
    subst hrule
    rcases h'.mem_number c hmem with hc' | rfl
    · exact hdigit hc'
    · exact absurd hc (by decide)
  by_cases hl : Letter d
  · exact ((h'.of_letter hl).2 c hmem').elim hletter hdigit
  by_cases hb : d ∈ [' ', '\r', '\t', '\n']
  · obtain ⟨rfl, -⟩ := h.of_blank hb
    cases htoken
  rcases h'.of_other hq hd hl hb with ⟨kind, -, hm⟩ | ⟨-, rfl, body, -, heq⟩
  · have hmarks : (Kind.marks.all fun entry => entry.1.all fun e => !isBlank e) = true := by decide
    have hblank := List.all_eq_true.1 (List.all_eq_true.1 hmarks _ hm) c hmem
    rw [isBlank_iff.2 hc] at hblank
    cases hblank
  · rcases h.of_other hq hd hl hb with ⟨kind', -, hm⟩ | ⟨rfl, -, -⟩
    · have hslashes : ∀ entry ∈ Kind.marks, entry.1.head? = some '/' → entry.1.tail = [] := by
        decide
      obtain rfl : rest = [] := hslashes _ hm rfl
      exact hslash (List.cons.inj heq).1
    · cases htoken

/-- What stands for a token is the longest match before a blank. -/
theorem longest_of_blank {rule : Rule} {text rest : List Char} (h : Matches rule text)
    (htoken : standsForToken ⟨rule, text⟩ = true)
    (hsep : ∀ c ∈ rest.head?, c ∈ [' ', '\r', '\t', '\n']) :
    Longest (text ++ rest) ⟨rule, text⟩ := by
  refine ⟨h, fun {rule' text'} hm hp => ?_⟩
  obtain ⟨after, happ⟩ := hp
  rcases List.append_eq_append_iff.1 happ with ⟨more, rfl, -⟩ | ⟨more, rfl, rfl⟩
  · simp
  · cases more with
    | nil => simp
    | cons c more => exact absurd hm (h.not_matches_blank htoken (hsep c rfl))

/-! ### The scan -/

theorem error?_of_token? {s : Segment} {start : Position} {t : Token}
    (h : s.token? start = some t) : s.error? start = none := by
  obtain ⟨rule, text⟩ := s
  cases rule with
  | number =>
    obtain ⟨d, hd, -⟩ := Option.map_eq_some_iff.1 h
    simp only [Segment.error?, hd]
  | unclosed | stray => cases h
  | _ => rfl

/-- The segments of a source that is spaced out, and what they give from anywhere. -/
theorem Spaced.exists_segments {lexemes : List String} {source : List Char}
    (h : Spaced lexemes source) : ∀ {tokens : List Token}, tokens.map Token.lexeme = lexemes →
    (∀ t ∈ tokens, Spelled t) →
    ∃ segments, Segmented source segments ∧ ∀ start,
      ((place start segments).filterMap fun p => p.1.token? p.2).map (Token.reline fun _ => 1)
          = tokens.map (Token.reline fun _ => 1)
        ∧ ((place start segments).filterMap fun p => p.1.error? p.2) = [] := by
  induction h with
  | nil =>
    intro tokens htokens _
    obtain rfl := List.map_eq_nil_iff.1 htokens
    exact ⟨[], .nil, fun _ => ⟨rfl, rfl⟩⟩
  | @blank c lexemes source hc _ ih =>
    intro tokens htokens hspelled
    obtain ⟨segments, hsegmented, hplace⟩ := ih htokens hspelled
    exact ⟨⟨.blank, [c]⟩ :: segments, .cons ((longest_blank hc).leads rfl) hsegmented,
      fun start => hplace (start.advance [c])⟩
  | @lexeme lexeme lexemes source hsep _ ih =>
    intro tokens htokens hspelled
    obtain ⟨t, tokens, rfl, rfl, hrest⟩ := List.map_eq_cons_iff.1 htokens
    obtain ⟨hspelled, hspelleds⟩ := List.forall_mem_cons.1 hspelled
    obtain ⟨rule, hmatches, htoken, hgives⟩ := hspelled
    obtain ⟨segments, hsegmented, hplace⟩ := ih hrest hspelleds
    refine ⟨⟨rule, t.lexeme.toList⟩ :: segments,
      .cons ((longest_of_blank hmatches htoken hsep).leads rfl) hsegmented, fun start => ?_⟩
    obtain ⟨htokens, herrors⟩ := hplace (start.advance t.lexeme.toList)
    simp only [place, List.filterMap_cons, hgives, error?_of_token? (hgives start), herrors,
      List.map_cons, htokens, and_true]
    rfl

/-- A source with blanks between the lexemes of tokens is scanned into these tokens, but for their
lines. -/
theorem ofSource_spaced {tokens : List Token} {source : String}
    (hspelled : ∀ t ∈ tokens, Spelled t) (h : Spaced (tokens.map Token.lexeme) source.toList) :
    (Scan.ofSource source).stream.ahead.map (Token.reline fun _ => 1)
        = tokens.map (Token.reline fun _ => 1)
      ∧ (Scan.ofSource source).errors = [] := by
  obtain ⟨segments, hsegmented, hplace⟩ := h.exists_segments rfl hspelled
  obtain rfl := segmented_iff.1 hsegmented
  exact hplace .start

/-! ### Tokens that their lexemes stand for -/

theorem spelled_mark {t : Token} (h : (t.lexeme.toList, t.kind) ∈ Kind.marks)
    (hn : t.literal = .nil) : Spelled t := by
  refine ⟨.mark t.kind, .mark h, rfl, fun start => ?_⟩
  simp only [Segment.token?, Segment.lexeme, String.ofList_toList, ← hn]

theorem spelled_word {t : Token} (h : Matches .word t.lexeme.toList)
    (hk : t.kind = Kind.ofWord t.lexeme) (hn : t.literal = .nil) : Spelled t := by
  refine ⟨.word, h, rfl, fun start => ?_⟩
  simp only [Segment.token?, Segment.lexeme, String.ofList_toList, ← hn, ← hk]

theorem matches_of_parse? {text : List Char} {d : Decimal} (h : Decimal.parse? text = some d) :
    Matches .number text := by
  have happ := List.takeWhile_append_dropWhile (p := Char.isDigit) (l := text)
  have hwhole : ∀ c ∈ text.takeWhile Char.isDigit, Digit c :=
    fun c hc => isDigit_iff.1 (of_mem_takeWhile hc)
  simp only [Decimal.parse?] at h
  split at h
  · rename_i hdrop
    split at h
    · cases h
    · rename_i hne
      rw [hdrop, List.append_nil] at happ
      rw [happ] at hwhole hne
      exact .whole hne hwhole
  · rename_i point fraction hdrop
    split at h
    · cases h
    · rename_i hne
      simp only [not_or, Decidable.not_not, List.all_eq_true] at hne
      obtain ⟨hne, rfl, hfraction, hall⟩ := hne
      rw [hdrop] at happ
      rw [← happ]
      exact .fraction hne hwhole hfraction fun c hc => isDigit_iff.1 (hall c hc)

theorem spelled_number {t : Token} {d : Decimal} (h : Decimal.parse? t.lexeme.toList = some d)
    (hk : t.kind = .number) (hn : t.literal = .number d.toFloat) : Spelled t := by
  refine ⟨.number, matches_of_parse? h, rfl, fun start => ?_⟩
  simp only [Segment.token?, Segment.lexeme, String.ofList_toList, h, Option.map_some, ← hk, ← hn]

theorem spelled_quoted {t : Token} {s : String} (hs : '"' ∉ s.toList)
    (h : t.lexeme = "\"" ++ s ++ "\"") (hk : t.kind = .string) (hn : t.literal = .string s) :
    Spelled t := by
  have hlist : t.lexeme.toList = '"' :: s.toList ++ ['"'] := by simp [h]
  refine ⟨.quoted, hlist ▸ .quoted hs, rfl, fun start => ?_⟩
  simp only [Segment.token?, Segment.lexeme, String.ofList_toList, ← hk]
  rw [hlist]
  simp [← hn]

end Lexicon

end Scriptlet
