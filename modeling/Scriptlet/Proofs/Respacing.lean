import Scriptlet.Proofs.SameTokens
import Scriptlet.Proofs.Spelling

/-!
# Lexemes spaced out

The lexemes of a source, errors or not, with any blanks between them are scanned without an error
into the tokens that they were cut off as, but for their lines (`Scan.ofSource_respaced`): which
token a lexeme stands for does not hang on what stood next to it.
-/

namespace Scriptlet

namespace Lexicon

/-- Any blanks between lexemes, at least one, space out a source. -/
theorem spaced_join {first : String} : ∀ {pieces : List (List Char × String)},
    (∀ p ∈ pieces, p.1 ≠ [] ∧ ∀ c ∈ p.1, c ∈ [' ', '\r', '\t', '\n']) →
    Spaced (first :: pieces.map Prod.snd)
      (first.toList ++ pieces.flatMap fun p => p.1 ++ p.2.toList)
  | [], _ => .lexeme (by simp) .nil
  | (gap, lexeme) :: pieces, h => by
    obtain ⟨⟨hne, hgap⟩, hrest⟩ := List.forall_mem_cons.1 h
    obtain ⟨c, gap, rfl⟩ := List.exists_cons_of_ne_nil hne
    rw [List.flatMap_cons, List.append_assoc]
    refine .lexeme (fun d hd => ?_) ((spaced_join hrest).blanks hgap)
    obtain rfl : c = d := by simpa using hd
    exact hgap c List.mem_cons_self

end Lexicon

namespace Scan

open Lexicon

/-- The lexemes of a source, with blanks between any two of them, are scanned without an error into
the tokens that they were cut off as, but for the lines. -/
theorem ofSource_respaced {source respaced : String}
    (h : Spaced ((ofSource source).stream.ahead.map Token.lexeme) respaced.toList) :
    (ofSource respaced).errors.map Report.ofLexicalError = []
      ∧ List.Forall₂ Token.Alike (ofSource source).stream.toList
        (ofSource respaced).stream.toList := by
  obtain ⟨hahead, herrors⟩ := ofSource_spaced (fun t => spelled_of_mem_ahead) h
  refine ⟨by rw [herrors, List.map_nil], ?_⟩
  rw [forall₂_iff_map_eq Token.alike_iff, TokenStream.toList, TokenStream.toList, List.map_append,
    List.map_append, hahead]
  rfl

/-- Lexemes that touch one another, a comment, a text over two lines and two bad characters. -/
theorem ofSource_respaced_touching :
    let source := "@1.5.2./!==\"p\nq\"orx//==\n=#"
    let respaced := "1.5 .\t2 \n.\r/ != = \"p\nq\"\n\norx ="
    Spaced ((ofSource source).stream.ahead.map Token.lexeme) respaced.toList
      ∧ (ofSource respaced).errors.map Report.ofLexicalError = []
      ∧ List.Forall₂ Token.Alike (ofSource source).stream.toList
        (ofSource respaced).stream.toList := by
  intro source respaced
  have hlexemes : (ofSource source).stream.ahead.map Token.lexeme
      = ["1.5", ".", "2", ".", "/", "!=", "=", "\"p\nq\"", "orx", "="] := by
    decide +kernel
  have hspaced : Spaced ((ofSource source).stream.ahead.map Token.lexeme) respaced.toList := by
    have hjoin := @spaced_join "1.5" [([' '], "."), (['\t'], "2"), ([' ', '\n'], "."),
      (['\r'], "/"), ([' '], "!="), ([' '], "="), ([' '], "\"p\nq\""), (['\n', '\n'], "orx"),
      ([' '], "=")]
      (by simp)
    rw [hlexemes]
    simpa [respaced] using hjoin
  exact ⟨hspaced, ofSource_respaced hspaced⟩

end Scan

end Scriptlet
