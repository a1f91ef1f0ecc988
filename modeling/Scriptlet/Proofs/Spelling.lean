import Scriptlet.Proofs.Layout
import Scriptlet.Proofs.LineReports

/-!
# Lexemes of tokens

What a token is does not hang on where it was cut off: each lexeme of a source, errors or not, is
spelled in full and stands for its token anywhere (`Scan.spelled_of_mem_ahead`). So a token is a
mark, a word, a number or a quoted text by its lexeme alone (`Lexicon.Spelled.spelling`).
-/

namespace Scriptlet

namespace Lexicon

theorem proper_of_mem_place {source : List Char} {s : Segment} {p : Position}
    (h : (s, p) ∈ Segment.place .start (Segment.split source)) : Proper s := by
  obtain ⟨before, after, hsplit, -⟩ := Segment.mem_place h
  exact (segmented_split source).proper s (by rw [hsplit]; simp)

/-- A segment that stands for a token is not bad. -/
theorem Proper.follows {s : Segment} (h : Proper s) (hs : standsForToken s = true) :
    Matches s.rule s.text := by
  refine h.resolve_right fun hbad => ?_
  cases hr : s.rule <;> simp [standsForToken, isBad, hr] at hs hbad

/-- What a segment stands for is the same from anywhere, but for the line. -/
theorem token?_eq_of_token? {s : Segment} {p : Position} {t : Token} (h : s.token? p = some t)
    (start : Position) : s.token? start = some { t with line := start.line } := by
  obtain ⟨rule, text⟩ := s
  cases rule with
  | number =>
    obtain ⟨d, hd, rfl⟩ := Option.map_eq_some_iff.1 h
    simp only [Segment.token?, hd, Option.map_some, Segment.lexeme]
  | mark kind => cases h; rfl
  | word => cases h; rfl
  | quoted => cases h; rfl
  | blank | comment | unclosed | stray => cases h

/-- What a token that its lexeme stands for can be. -/
inductive Spelling : Token → Prop
  | mark {t : Token} (h : (t.lexeme.toList, t.kind) ∈ Kind.marks) (hn : t.literal = .nil) :
      Spelling t
  | word {t : Token} (h : Matches .word t.lexeme.toList) (hk : t.kind = Kind.ofWord t.lexeme)
      (hn : t.literal = .nil) : Spelling t
  | number {t : Token} {d : Decimal} (hk : t.kind = .number) (hn : t.literal = .number d.toFloat) :
      Spelling t
  | quoted {t : Token} {s : String} (hk : t.kind = .string) (hn : t.literal = .string s) :
      Spelling t

theorem Spelled.spelling {t : Token} (h : Spelled t) : Spelling t := by
  obtain ⟨rule, hm, hs, htoken⟩ := h
  have ht := htoken ⟨0, t.line, 0⟩
  simp only [Segment.token?] at ht
  cases rule with
  | mark kind =>
    obtain ⟨hk, -, hn, -⟩ := Token.mk.inj (Option.some.inj ht)
    cases hm with
    | mark hm => exact .mark (hk ▸ hm) hn.symm
  | word =>
    obtain ⟨hk, -, hn, -⟩ := Token.mk.inj (Option.some.inj ht)
    rw [Segment.lexeme, String.ofList_toList] at hk
    exact .word hm hk.symm hn.symm
  | number =>
    obtain ⟨d, -, hd⟩ := Option.map_eq_some_iff.1 ht
    obtain ⟨hk, -, hn, -⟩ := Token.mk.inj hd
    exact .number hk.symm hn.symm
  | quoted =>
    obtain ⟨hk, -, hn, -⟩ := Token.mk.inj (Option.some.inj ht)
    exact .quoted hk.symm hn.symm
  | blank | comment | unclosed | stray => cases hs

end Lexicon

open Lexicon in
/-- The tokens of a source are those that their lexemes stand for. -/
theorem Scan.spelled_of_mem_ahead {source : String} {t : Token}
    (h : t ∈ (ofSource source).stream.ahead) : Spelled t := by
  obtain ⟨⟨s, p⟩, hmem, ht⟩ := List.mem_filterMap.1 h
  have hproper : Proper s := proper_of_mem_place hmem
  have hgives := hproper.token? p
  split at hgives
  · rename_i hstands
    obtain ⟨u, hu, -, -, hlexeme⟩ := hgives
    obtain rfl : t = u := Option.some.inj (ht.symm.trans hu)
    have htext : t.lexeme.toList = s.text := by rw [hlexeme, Segment.lexeme, String.toList_ofList]
    refine ⟨s.rule, ?_, ?_, ?_⟩
    · rw [htext]
      exact hproper.follows hstands
    · rw [htext]
      exact hstands
    · rw [htext]
      exact token?_eq_of_token? ht
  · cases ht.symm.trans hgives

end Scriptlet
