import Scriptlet.Token.Kind
import Scriptlet.Value

/-!
# Tokens

A token is a word of the source: its kind, its spelling, the value that it stands for (nil if it
stands for none), and its line.
-/

namespace Scriptlet

structure Token where
  kind : Kind
  lexeme : String
  literal : Value := .nil
  line : Nat := 1
deriving DecidableEq

namespace Token

/-- A name at a line. -/
def ident (lexeme : String) (line : Nat) : Token :=
  ⟨.identifier, lexeme, .nil, line⟩

/-- The end of a source whose last line is given. -/
def atEnd (line : Nat) : Token :=
  ⟨.eof, "", .nil, line⟩

/-- The token's kind, spelling and value in one line. -/
def describe (t : Token) : String :=
  t.kind.name ++ " " ++ t.lexeme ++ " " ++ t.literal.describe

end Token

/-- A source as a reader sees it: the tokens ahead, none of them an end, and the end after them. -/
structure TokenStream where
  ahead : List Token
  final : Token

/-- The tokens before the first end, and that end; none if there is no end. -/
def TokenStream.ofList? (tokens : List Token) : Option TokenStream :=
  (tokens.find? fun t => t.kind = .eof).map fun final =>
    ⟨tokens.takeWhile fun t => t.kind ≠ .eof, final⟩

/-- Tokens that hold no end come before those that a stream has ahead. -/
theorem TokenStream.ofList?_append {tokens : List Token} (ht : ∀ t ∈ tokens, t.kind ≠ .eof)
    (rest : List Token) :
    ofList? (tokens ++ rest) = (ofList? rest).map fun s => ⟨tokens ++ s.ahead, s.final⟩ := by
  have hfind : tokens.find? (fun t => t.kind = .eof) = none :=
    List.find?_eq_none.2 (by simpa using ht)
  rw [ofList?, ofList?, List.find?_append, hfind, Option.none_or, Option.map_map,
    List.takeWhile_append_of_pos (by simpa using ht)]
  rfl

/-- Tokens before an end are what the stream has ahead, whatever follows that end. -/
theorem TokenStream.ofList?_append_end {tokens beyond : List Token} {final : Token}
    (ht : ∀ t ∈ tokens, t.kind ≠ .eof) (hf : final.kind = .eof) :
    ofList? (tokens ++ final :: beyond) = some ⟨tokens, final⟩ := by
  have hend : ofList? (final :: beyond) = some ⟨[], final⟩ := by simp [ofList?, hf]
  rw [ofList?_append ht, hend, Option.map_some, List.append_nil]

/-- Tokens with an end at their end are a stream. -/
theorem TokenStream.exists_ofList? (front : List Token) {final : Token}
    (hfinal : final.kind = .eof) :
    ∃ first, ofList? (front ++ [final])
      = some ⟨(front ++ [final]).takeWhile fun t => t.kind ≠ .eof, first⟩ := by
  have hfind : ((front ++ [final]).find? fun t => t.kind = .eof).isSome := by
    rw [List.find?_isSome]
    exact ⟨final, by simp, by simpa using hfinal⟩
  obtain ⟨first, hfirst⟩ := Option.isSome_iff_exists.1 hfind
  exact ⟨first, by rw [ofList?, hfirst, Option.map_some]⟩

/-- All tokens, the end last. -/
def TokenStream.toList (s : TokenStream) : List Token :=
  s.ahead ++ [s.final]

end Scriptlet
