/-!
# Positions in a source

A position counts the characters before it, the lines, and the characters before its own line.
After any text its line is one more than the line ends in the text (`Position.line_advance`).
-/

namespace Scriptlet

/-- A place between two characters of a source. -/
structure Position where
  /-- The characters before this place. -/
  offset : Nat
  /-- The line, counted from one. -/
  line : Nat
  /-- The characters before the line. -/
  lineStart : Nat
deriving DecidableEq

namespace Position

/-- The place before the first character. -/
def start : Position :=
  ⟨0, 1, 0⟩

def step (p : Position) (c : Char) : Position :=
  if c = '\n' then ⟨p.offset + 1, p.line + 1, p.offset + 1⟩
  else ⟨p.offset + 1, p.line, p.lineStart⟩

def advance (p : Position) (text : List Char) : Position :=
  text.foldl step p

/-- The place within its line, counted from one. -/
def column (p : Position) : Nat :=
  p.offset - p.lineStart + 1

@[simp] theorem advance_nil (p : Position) : p.advance [] = p := rfl

@[simp] theorem advance_cons (p : Position) (c : Char) (text : List Char) :
    p.advance (c :: text) = (p.step c).advance text := rfl

theorem advance_append (p : Position) (a b : List Char) :
    p.advance (a ++ b) = (p.advance a).advance b :=
  List.foldl_append

theorem line_advance (p : Position) (text : List Char) :
    (p.advance text).line = p.line + text.count '\n' := by
  induction text generalizing p with
  | nil => simp
  | cons c text ih =>
    rw [advance_cons, ih, step]
    by_cases h : c = '\n'
    · simp only [h, if_true, List.count_cons_self]
      omega
    · rw [if_neg h, List.count_cons_of_ne h]

theorem offset_advance (p : Position) (text : List Char) :
    (p.advance text).offset = p.offset + text.length := by
  induction text generalizing p with
  | nil => simp
  | cons c text ih =>
    have hstep : (p.step c).offset = p.offset + 1 := by
      unfold step
      split <;> rfl
    rw [advance_cons, ih, hstep, List.length_cons]
    omega

end Position

end Scriptlet
