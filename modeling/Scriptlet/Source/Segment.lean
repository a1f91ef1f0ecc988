import Scriptlet.Token.Kind

/-!
# Segments of a source

A source is cut into segments, each the longest piece that a lexical rule matches: marks, words,
numbers, quoted texts, blanks and comments. A quote that is never closed takes all that follows, and
a character that no rule matches stands alone. Nothing is lost (`Segment.flatMap_text_split`).
-/

namespace Scriptlet

/-- The rule that a piece of source follows. -/
inductive Rule where
  | mark (kind : Kind)
  | word
  | number
  | quoted
  | blank
  | comment
  | unclosed
  | stray (c : Char)
deriving DecidableEq

structure Segment where
  rule : Rule
  text : List Char
deriving DecidableEq

namespace Segment

/-- The blanks between tokens: space, carriage return, tab and line end. -/
def isBlank (c : Char) : Bool :=
  c == ' ' || c == '\r' || c == '\t' || c == '\n'

/-- What a word starts with: an ASCII letter or an underscore. -/
def isWordStart (c : Char) : Bool :=
  c.isAlpha || c == '_'

def isWordPart (c : Char) : Bool :=
  isWordStart c || c.isDigit

/-- What a comment goes on with: all but the line end. -/
def isCommentPart (c : Char) : Bool :=
  c != '\n'

/-- What a quoted text goes on with: all but the quote. -/
def isQuotedPart (c : Char) : Bool :=
  c != '"'

/-- The longest number at the front of a source that starts with a digit: digits, and a point with
more digits if a digit follows the point. -/
def cutNumber (source : List Char) : List Char × List Char :=
  let whole := source.takeWhile Char.isDigit
  match source.dropWhile Char.isDigit with
  | '.' :: d :: after =>
    if d.isDigit then
      (whole ++ '.' :: (d :: after).takeWhile Char.isDigit, (d :: after).dropWhile Char.isDigit)
    else (whole, '.' :: d :: after)
  | after => (whole, after)

/-- The segment at a quote, with what follows it. -/
def cutQuoted (after : List Char) : Segment × List Char :=
  match after.dropWhile isQuotedPart with
  | [] => (⟨.unclosed, '"' :: after⟩, [])
  | quote :: rest => (⟨.quoted, '"' :: after.takeWhile isQuotedPart ++ [quote]⟩, rest)

/-- The segment of one character: a mark, or a character that no rule matches. -/
def single (c : Char) : Segment :=
  match Kind.ofMark? [c] with
  | some kind => ⟨.mark kind, [c]⟩
  | none => ⟨.stray c, [c]⟩

/-- The longest mark at the front of a source, with what follows it. -/
def cutMark (c : Char) : List Char → Segment × List Char
  | [] => (single c, [])
  | d :: after =>
    match Kind.ofMark? [c, d] with
    | some kind => (⟨.mark kind, [c, d]⟩, after)
    | none => (single c, d :: after)

/-- The first segment of a source, with what follows it. -/
def first (c : Char) (after : List Char) : Segment × List Char :=
  if c = '"' then cutQuoted after
  else if c.isDigit then
    let cut := cutNumber (c :: after)
    (⟨.number, cut.1⟩, cut.2)
  else if isWordStart c then
    (⟨.word, c :: after.takeWhile isWordPart⟩, after.dropWhile isWordPart)
  else if isBlank c then (⟨.blank, [c]⟩, after)
  else if c = '/' ∧ after.head? = some '/' then
    (⟨.comment, c :: after.takeWhile isCommentPart⟩, after.dropWhile isCommentPart)
  else cutMark c after

theorem cutNumber_append (source : List Char) :
    (cutNumber source).1 ++ (cutNumber source).2 = source := by
  have h := List.takeWhile_append_dropWhile (p := Char.isDigit) (l := source)
  unfold cutNumber
  split
  · rename_i d after hd
    rw [hd] at h
    split
    · rw [List.append_assoc, List.cons_append, List.takeWhile_append_dropWhile, h]
    · exact h
  · exact h

theorem first_append (c : Char) (after : List Char) :
    (first c after).1.text ++ (first c after).2 = c :: after := by
  unfold first
  split
  · subst c
    unfold cutQuoted
    split
    · simp
    · rename_i quote rest h
      have := List.takeWhile_append_dropWhile (p := isQuotedPart) (l := after)
      rw [h] at this
      simp [this]
  split
  · exact cutNumber_append (c :: after)
  split
  · simp [List.takeWhile_append_dropWhile]
  split
  · rfl
  split
  · simp [List.takeWhile_append_dropWhile]
  have hs : (single c).text = [c] := by
    unfold single
    split <;> rfl
  unfold cutMark
  split
  · simp [hs]
  · split
    · rfl
    · simp [hs]

theorem length_first_lt (c : Char) (after : List Char) :
    (first c after).2.length < (c :: after).length := by
  have h := congrArg List.length (first_append c after)
  suffices (first c after).1.text ≠ [] by
    have := List.length_pos_iff.2 this
    simp only [List.length_append, List.length_cons] at h ⊢
    omega
  unfold first
  split
  · unfold cutQuoted
    split <;> simp
  split
  · rename_i hd
    simp only [cutNumber, List.takeWhile_cons_of_pos hd]
    split <;> try split
    all_goals simp
  split
  · simp
  split
  · simp
  split
  · simp
  have hs : (single c).text = [c] := by
    unfold single
    split <;> rfl
  unfold cutMark
  split
  · simp [hs]
  · split <;> simp [hs]

def split : List Char → List Segment
  | [] => []
  | c :: after => (first c after).1 :: split (first c after).2
termination_by source => source.length
decreasing_by exact length_first_lt c after

theorem flatMap_text_split (source : List Char) : (split source).flatMap text = source := by
  fun_induction split source with
  | case1 => rfl
  | case2 c after ih => rw [List.flatMap_cons, ih, first_append]

def lexeme (s : Segment) : String :=
  String.ofList s.text

end Segment

end Scriptlet
