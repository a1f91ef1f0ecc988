import Scriptlet.Source.Position
import Scriptlet.Source.Segment
import Scriptlet.Token.Basic

/-!
# Reading a source into tokens

Each segment of a source, at its position, gives a token, an error, or nothing (blanks and
comments). A bad segment is reported and left out, so a scan always gives a stream of tokens.
-/

namespace Scriptlet

inductive LexicalError.Cause where
  | unexpected (c : Char) (column : Nat)
  | unterminated
  | malformedNumber
deriving DecidableEq

structure LexicalError where
  line : Nat
  cause : LexicalError.Cause
deriving DecidableEq

def LexicalError.Cause.message : LexicalError.Cause → String
  | unexpected c column => s!"Unexpected character '{c}' (column {column})."
  | unterminated => "Unterminated string."
  | malformedNumber => "Invalid number literal."

namespace Segment

/-- The token of a segment that starts at a position. A quoted text has the line of its opening
quote and stands for the text between its quotes. -/
def token? (s : Segment) (start : Position) : Option Token :=
  match s.rule with
  | .mark kind => some ⟨kind, s.lexeme, .nil, start.line⟩
  | .word => some ⟨Kind.ofWord s.lexeme, s.lexeme, .nil, start.line⟩
  | .number =>
    (Decimal.parse? s.text).map fun d => ⟨.number, s.lexeme, .number d.toFloat, start.line⟩
  | .quoted => some ⟨.string, s.lexeme, .string (String.ofList s.text.tail.dropLast), start.line⟩
  | .blank | .comment | .unclosed | .stray _ => none

/-- The error of a segment that starts at a position. A quote that is never closed is reported at
the last line. -/
def error? (s : Segment) (start : Position) : Option LexicalError :=
  match s.rule with
  | .stray c => some ⟨start.line, .unexpected c start.column⟩
  | .unclosed => some ⟨(start.advance s.text).line, .unterminated⟩
  | .number =>
    match Decimal.parse? s.text with
    | some _ => none
    | none => some ⟨start.line, .malformedNumber⟩
  | .mark _ | .word | .quoted | .blank | .comment => none

/-- The segments with the positions where they start, the first at `start`. -/
def place (start : Position) : List Segment → List (Segment × Position)
  | [] => []
  | s :: rest => (s, start) :: place (start.advance s.text) rest

end Segment

/-- What reading a source gives: its tokens, and its bad segments in order. -/
structure Scan where
  stream : TokenStream
  errors : List LexicalError

/-- Reads a source. The end of the tokens is at the last line. -/
def Scan.ofSource (source : String) : Scan :=
  let placed := Segment.place .start (Segment.split source.toList)
  { stream :=
      { ahead := placed.filterMap fun p => p.1.token? p.2
        final := .atEnd (Position.start.advance source.toList).line }
    errors := placed.filterMap fun p => p.1.error? p.2 }

end Scriptlet
