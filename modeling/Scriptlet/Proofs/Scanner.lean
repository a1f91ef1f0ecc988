import Scriptlet.Source.Scan

/-!
# Scanning by index

A scanner looks at the characters of a source by their index. It keeps the indices where the current
segment and the current line start, moves a third one along, and cuts the lexemes out between them.
Nothing in its definitions keeps an index inside of the source or a difference above zero: a sweep
that looks outside of the source, cuts out what does not lie in it, subtracts a larger index or runs
a loop for more rounds than it may has no result.
-/

namespace Scriptlet

/-- Where the current segment starts, where the next character is, and where its line starts. -/
structure Indices where
  start : Nat := 0
  current : Nat := 0
  lineStart : Nat := 0

/-- A scanner of a source with the tokens and the errors so far. It keeps a record of its indices:
at the beginning and at the end of every round, and after every change within one, the last
first. -/
structure Scanner extends Indices where
  source : List Char
  line : Nat := 1
  tokens : List Token := []
  errors : List LexicalError := []
  rounds : List (Indices × Indices) := []
  changes : List Indices := []

abbrev Sweep : Type → Type :=
  StateT Scanner Option

namespace Sweep

/-! ### Steps -/

def start : Sweep Nat := return (← get).start

def current : Sweep Nat := return (← get).current

def lineStart : Sweep Nat := return (← get).lineStart

def line : Sweep Nat := return (← get).line

/-- The character at an index of the source. -/
def char (i : Nat) : Sweep Char := fun m =>
  m.source[i]?.map fun c => (c, m)

/-- The character at an index, NUL outside of the source. -/
def look (i : Nat) : Sweep Char := return (← get).source[i]?.getD '\x00'

/-- The characters from an index up to another one. -/
def slice (i j : Nat) : Sweep (List Char) := fun m =>
  if i ≤ j ∧ j ≤ m.source.length then some ((m.source.take j).drop i, m) else none

/-- The difference of two indices, the second of them no larger. -/
def minus (i j : Nat) : Sweep Nat := fun m =>
  if j ≤ i then some (i - j, m) else none

def peek : Sweep Char := do look (← current)

def peekNext : Sweep Char := do look ((← current) + 1)

def atEnd : Sweep Bool := return decide ((← get).source.length ≤ (← current))

/-- Changes the indices within a round. -/
def change (f : Indices → Indices) : Sweep Unit :=
  modify fun m => { m with toIndices := f m.toIndices, changes := f m.toIndices :: m.changes }

/-- Moves past one character. -/
def move : Sweep Unit :=
  change fun i => { i with current := i.current + 1 }

/-- Counts a line end that was moved past. -/
def newline : Sweep Unit := do
  modify fun m => { m with line := m.line + 1 }
  change fun i => { i with lineStart := i.current }

def advance : Sweep Char := do
  let c ← char (← current)
  move
  return c

/-- Moves past the next character if it is the expected one. -/
def accept (expected : Char) : Sweep Bool := do
  if ← atEnd then return false
  else if (← char (← current)) ≠ expected then return false
  else
    move
    return true

def report (cause : LexicalError.Cause) : Sweep Unit :=
  modify fun m => { m with errors := m.errors ++ [⟨m.line, cause⟩] }

def emit (t : Token) : Sweep Unit :=
  modify fun m => { m with tokens := m.tokens ++ [t] }

def lexeme : Sweep (List Char) := do slice (← start) (← current)

/-- Emits the token of the current segment at the current line. -/
def token (kind : Kind) (literal : Value) : Sweep Unit := do
  emit ⟨kind, String.ofList (← lexeme), literal, ← line⟩

/-- Repeats a step as long as a condition holds, for fewer than a number of rounds. -/
def loop (go : Sweep Bool) (step : Sweep Unit) : Nat → Sweep Unit
  | 0 => failure
  | rounds + 1 => do
    if ← go then
      step
      loop go step rounds
    else return

/-! ### Segments -/

section

variable (rounds : Nat)

/-- Moves past the rest of a comment. -/
def comment : Sweep Unit :=
  loop (return (← peek) ≠ '\n' && !(← atEnd)) move rounds

/-- Moves past one character of a quoted text. -/
def quotedPart : Sweep Unit := do
  move
  if (← char (← minus (← current) 1)) = '\n' then newline

def quoted : Sweep Unit := do
  let startLine ← line
  loop (return (← peek) ≠ '"' && !(← atEnd)) quotedPart rounds
  if ← atEnd then report .unterminated
  else
    move
    let value ← slice ((← start) + 1) (← minus (← current) 1)
    emit ⟨.string, String.ofList (← lexeme), .string (String.ofList value), startLine⟩

def digits : Sweep Unit :=
  loop (return (← peek).isDigit) move rounds

/-- Moves past the fractional part of a number, if there is one. -/
def fraction : Sweep Unit := do
  if (← peek) = '.' && (← peekNext).isDigit then
    move
    digits rounds

def number : Sweep Unit := do
  digits rounds
  fraction rounds
  match Decimal.parse? (← lexeme) with
  | some d => token .number (.number d.toFloat)
  | none => report .malformedNumber

def word : Sweep Unit := do
  loop (return Segment.isWordPart (← peek)) move rounds
  token (Kind.ofWord (String.ofList (← lexeme))) .nil

/-- A mark that is another one with an equals sign after it. -/
def operator (single paired : Kind) : Sweep Unit := do
  if ← accept '=' then token paired .nil else token single .nil

/-- Moves past what follows the first character of a segment. -/
def goOn (c : Char) : Sweep Unit :=
  match c with
  | '!' => operator .bang .bangEqual
  | '=' => operator .equal .equalEqual
  | '<' => operator .less .lessEqual
  | '>' => operator .greater .greaterEqual
  | '/' => do if ← accept '/' then comment rounds else token .slash .nil
  | ' ' | '\r' | '\t' => return
  | '\n' => newline
  | '"' => quoted rounds
  | _ =>
    match Kind.ofMark? [c] with
    | some kind => token kind .nil
    | none => do
      if c.isDigit then number rounds
      else if Segment.isWordStart c then word rounds
      else report (.unexpected c ((← minus (← start) (← lineStart)) + 1))

/-- Moves past one segment. -/
def segment : Sweep Unit := do goOn rounds (← advance)

end

/-! ### Sources -/

/-- Starts a segment at the next character. -/
def enter : Sweep Indices := do
  modify fun m => { m with start := m.current }
  return (← get).toIndices

/-- Records a round that began at the given indices. -/
def finish (first : Indices) : Sweep Unit :=
  modify fun m => { m with rounds := (first, m.toIndices) :: m.rounds }

def round (rounds : Nat) : Sweep Unit := do
  let first ← enter
  segment rounds
  finish first

/-- Scans a source to its end. -/
def scan (rounds : Nat) : Sweep Unit := do
  loop (return !(← atEnd)) (round rounds) rounds
  emit (.atEnd (← line))

end Sweep

/-! ### What a sweep does -/

theorem Position.advance_concat_of_ne {p : Position} {text : List Char} {c : Char} (hc : c ≠ '\n') :
    p.advance (text ++ [c]) = { p.advance text with offset := (p.advance text).offset + 1 } := by
  rw [advance_append]
  exact if_neg hc

theorem Position.offset_advance_start (text : List Char) :
    (start.advance text).offset = text.length :=
  (offset_advance start text).trans (Nat.zero_add _)

namespace Scanner

/-- Every round began at a character, on a line that starts no later, and moved on; every change
within a round was past the first character of the segment and inside of the source. -/
structure Safe (m : Scanner) : Prop where
  rounds : ∀ p ∈ m.rounds, p.1.lineStart ≤ p.1.start ∧ p.1.start = p.1.current
    ∧ p.1.current < m.source.length ∧ p.1.current < p.2.current
  changes : ∀ i ∈ m.changes, i.start < i.current ∧ i.current ≤ m.source.length

/-- The scanner is in a segment, with what was read of it and what is left of the source. The line
ends of `counted` are counted. -/
structure Stands (counted opened read rest : List Char) (tokens : List Token)
    (errors : List LexicalError) (m : Scanner) : Prop where
  source : m.source = opened ++ read ++ rest
  start : m.start = opened.length
  current : m.current = opened.length + read.length
  line : m.line = (Position.start.advance counted).line
  lineStart : m.lineStart = (Position.start.advance counted).lineStart
  tokens : m.tokens = tokens
  errors : m.errors = errors
  safe : m.Safe

/-- The scanner is in a segment, with all line ends before it counted. -/
abbrev At (opened read rest : List Char) (tokens : List Token) (errors : List LexicalError) :
    Scanner → Prop :=
  Stands (opened ++ read) opened read rest tokens errors

variable {m : Scanner} {counted opened read rest : List Char} {tokens : List Token}
  {errors : List LexicalError} {c : Char}

theorem Stands.length_source (h : m.Stands counted opened read rest tokens errors) :
    m.source.length = opened.length + read.length + rest.length := by
  rw [h.source, List.length_append, List.length_append]

/-- What is no line end leaves the line as it is. -/
theorem Stands.count (h : m.Stands counted opened read rest tokens errors)
    (hc : c ≠ '\n') : m.Stands (counted ++ [c]) opened read rest tokens errors :=
  { h with
    line := by rw [Position.advance_concat_of_ne hc, h.line]
    lineStart := by rw [Position.advance_concat_of_ne hc, h.lineStart] }

end Scanner

namespace Sweep

open Scanner

variable {α β : Type} {P Q R : Scanner → Prop} {a : α} {b : β}
  {counted opened read rest : List Char} {tokens : List Token} {errors : List LexicalError}
  {c : Char}

/-- From every scanner with `P` the sweep has a result: it gives `a` and leaves a scanner with
`Q`. -/
def Goes (P : Scanner → Prop) (w : Sweep α) (a : α) (Q : Scanner → Prop) : Prop :=
  ∀ m, P m → ∃ m', w m = some (a, m') ∧ Q m'

theorem goes_pure (a : α) : Goes P (pure a) a P :=
  fun m hm => ⟨m, rfl, hm⟩

theorem Goes.bind {w : Sweep α} {f : α → Sweep β} (hw : Goes P w a Q) (hf : Goes Q (f a) b R) :
    Goes P (w >>= f) b R := by
  intro m hm
  obtain ⟨m₁, hresult₁, hm₁⟩ := hw m hm
  obtain ⟨m₂, hresult₂, hm₂⟩ := hf m₁ hm₁
  refine ⟨m₂, ?_, hm₂⟩
  show (w m).bind (fun result => f result.1 result.2) = _
  rw [hresult₁]
  exact hresult₂

theorem Goes.mono {w : Sweep α} (hw : Goes P w a Q) (h : ∀ m, Q m → R m) : Goes P w a R := by
  intro m hm
  obtain ⟨m', hresult, hm'⟩ := hw m hm
  exact ⟨m', hresult, h m' hm'⟩

/-- A condition that holds. -/
theorem Goes.yes {w : Sweep Bool} {v v' : Sweep β} (hw : Goes P w true Q) (hv : Goes Q v b R) :
    Goes P (do if ← w then v else v') b R :=
  hw.bind hv

/-- A condition that does not hold. -/
theorem Goes.no {w : Sweep Bool} {v v' : Sweep β} (hw : Goes P w false Q) (hv : Goes Q v' b R) :
    Goes P (do if ← w then v else v') b R :=
  hw.bind hv

/-- A sweep that only looks. -/
theorem goes_of_eq {w : Sweep α} (h : ∀ m, P m → w m = some (a, m)) : Goes P w a P :=
  fun m hm => ⟨m, h m hm, hm⟩

theorem goes_start :
    Goes (Stands counted opened read rest tokens errors) start opened.length
      (Stands counted opened read rest tokens errors) :=
  goes_of_eq fun m hm => congrArg (fun i => some (i, m)) hm.start

theorem goes_current :
    Goes (Stands counted opened read rest tokens errors) current (opened.length + read.length)
      (Stands counted opened read rest tokens errors) :=
  goes_of_eq fun m hm => congrArg (fun i => some (i, m)) hm.current

theorem goes_lineStart :
    Goes (Stands counted opened read rest tokens errors) lineStart
      (Position.start.advance counted).lineStart
      (Stands counted opened read rest tokens errors) :=
  goes_of_eq fun m hm => congrArg (fun i => some (i, m)) hm.lineStart

theorem goes_line :
    Goes (Stands counted opened read rest tokens errors) line (Position.start.advance counted).line
      (Stands counted opened read rest tokens errors) :=
  goes_of_eq fun m hm => congrArg (fun i => some (i, m)) hm.line

theorem goes_char {i : Nat} (h : (opened ++ read ++ rest)[i]? = some c) :
    Goes (Stands counted opened read rest tokens errors) (char i) c
      (Stands counted opened read rest tokens errors) := by
  refine goes_of_eq fun m hm => ?_
  show (m.source[i]?).map _ = _
  rw [hm.source, h]
  rfl

theorem goes_look (i : Nat) :
    Goes (Stands counted opened read rest tokens errors) (look i)
      ((opened ++ read ++ rest)[i]?.getD '\x00')
      (Stands counted opened read rest tokens errors) :=
  goes_of_eq fun m hm => congrArg (fun source => some (source[i]?.getD '\x00', m)) hm.source

theorem goes_minus {i j : Nat} (h : j ≤ i) : Goes P (minus i j) (i - j) P :=
  goes_of_eq fun _ _ => if_pos h

/-- What stands between two places of the source is cut out. -/
theorem goes_slice {before text after : List Char}
    (h : opened ++ read ++ rest = before ++ text ++ after) :
    Goes (Stands counted opened read rest tokens errors)
      (slice before.length (before ++ text).length) text
      (Stands counted opened read rest tokens errors) := by
  refine goes_of_eq fun m hm => ?_
  have hsource : m.source = before ++ text ++ after := hm.source.trans h
  have hrange : before.length ≤ (before ++ text).length
      ∧ (before ++ text).length ≤ m.source.length := by
    simp only [hsource, List.length_append]
    exact ⟨Nat.le_add_right _ _, Nat.le_add_right _ _⟩
  refine (if_pos hrange).trans ?_
  rw [hsource, List.take_left, List.drop_left]

theorem getElem?_next (opened read rest : List Char) (i : Nat) :
    (opened ++ read ++ rest)[opened.length + read.length + i]? = rest[i]? := by
  rw [← List.length_append, List.getElem?_append_right (Nat.le_add_right _ _),
    Nat.add_sub_cancel_left]

theorem goes_peek :
    Goes (Stands counted opened read rest tokens errors) peek (rest.head?.getD '\x00')
      (Stands counted opened read rest tokens errors) := by
  rw [List.head?_eq_getElem?, ← getElem?_next opened read rest 0]
  exact goes_current.bind (goes_look _)

theorem goes_peekNext :
    Goes (Stands counted opened read rest tokens errors) peekNext (rest[1]?.getD '\x00')
      (Stands counted opened read rest tokens errors) := by
  rw [← getElem?_next opened read rest 1]
  exact goes_current.bind (goes_look _)

theorem goes_atEnd :
    Goes (Stands counted opened read rest tokens errors) atEnd rest.isEmpty
      (Stands counted opened read rest tokens errors) := by
  refine goes_of_eq fun m hm => ?_
  show some (decide (m.source.length ≤ m.current), m) = _
  rw [hm.source, hm.current]
  cases rest <;> simp

theorem goes_move :
    Goes (Stands counted opened read (c :: rest) tokens errors) move ()
      (Stands counted opened (read ++ [c]) rest tokens errors) := by
  intro m hm
  have hlength := hm.length_source
  have hstart := hm.start
  have hcurrent := hm.current
  rw [List.length_cons] at hlength
  exact ⟨_, rfl,
    { hm with
      source := by rw [hm.source, List.append_assoc, List.append_assoc, List.append_assoc]; rfl
      current := by
        rw [List.length_append]
        exact congrArg (· + 1) hcurrent
      safe :=
        { rounds := hm.safe.rounds
          changes := List.forall_mem_cons.2
            ⟨⟨show m.start < m.current + 1 by omega, show m.current + 1 ≤ m.source.length by omega⟩,
              hm.safe.changes⟩ } }⟩

theorem goes_newline (hread : read ≠ []) (h : opened ++ read = counted ++ ['\n']) :
    Goes (Stands counted opened read rest tokens errors) newline ()
      (Stands (opened ++ read) opened read rest tokens errors) := by
  intro m hm
  have hpos := List.length_pos_iff.2 hread
  have hlength := hm.length_source
  have hstart := hm.start
  have hcurrent := hm.current
  refine ⟨_, rfl,
    { hm with
      line := ?_
      lineStart := ?_
      safe :=
        { rounds := hm.safe.rounds
          changes := List.forall_mem_cons.2
            ⟨⟨show m.start < m.current by omega, show m.current ≤ m.source.length by omega⟩,
              hm.safe.changes⟩ } }⟩
  · rw [h, Position.advance_append]
    exact congrArg (· + 1) hm.line
  · have htext := congrArg List.length h
    rw [List.length_append, List.length_append, List.length_singleton] at htext
    rw [h, Position.advance_append]
    show m.current = (Position.start.advance counted).offset + 1
    rw [Position.offset_advance_start]
    omega

theorem goes_pass (hc : c ≠ '\n') :
    Goes (At opened read (c :: rest) tokens errors) move ()
      (At opened (read ++ [c]) rest tokens errors) := by
  refine goes_move.mono fun m hm => ?_
  rw [At, ← List.append_assoc]
  exact hm.count hc

theorem goes_accept_of_eq (hc : c ≠ '\n') :
    Goes (At opened read (c :: rest) tokens errors) (accept c) true
      (At opened (read ++ [c]) rest tokens errors) := by
  have hnext := getElem?_next opened read (c :: rest) 0
  refine goes_atEnd.no (goes_current.bind ((goes_char hnext).bind ?_))
  rw [if_neg (Ne.irrefl ·)]
  exact (goes_pass hc).bind (goes_pure true)

theorem goes_accept_of_ne (hc : rest.head? ≠ some c) :
    Goes (Stands counted opened read rest tokens errors) (accept c) false
      (Stands counted opened read rest tokens errors) := by
  cases rest with
  | nil => exact goes_atEnd.yes (goes_pure false)
  | cons d rest =>
    have hnext := getElem?_next opened read (d :: rest) 0
    refine goes_atEnd.no (goes_current.bind ((goes_char hnext).bind ?_))
    rw [if_pos fun hd => hc (congrArg some hd)]
    exact goes_pure false

theorem goes_report (cause : LexicalError.Cause) :
    Goes (Stands counted opened read rest tokens errors) (report cause) ()
      (Stands counted opened read rest tokens
        (errors ++ [⟨(Position.start.advance counted).line, cause⟩])) := by
  intro m hm
  refine ⟨_, rfl, { hm with errors := ?_, safe := ⟨hm.safe.rounds, hm.safe.changes⟩ }⟩
  show m.errors ++ [⟨m.line, cause⟩] = _
  rw [hm.errors, hm.line]

theorem goes_emit (t : Token) :
    Goes (Stands counted opened read rest tokens errors) (emit t) ()
      (Stands counted opened read rest (tokens ++ [t]) errors) :=
  fun _ hm => ⟨_, rfl, { hm with
    tokens := congrArg (· ++ [t]) hm.tokens
    safe := ⟨hm.safe.rounds, hm.safe.changes⟩ }⟩

theorem goes_lexeme :
    Goes (Stands counted opened read rest tokens errors) lexeme read
      (Stands counted opened read rest tokens errors) := by
  refine goes_start.bind (goes_current.bind ?_)
  rw [← List.length_append]
  exact goes_slice rfl

theorem goes_token (kind : Kind) (literal : Value) :
    Goes (Stands counted opened read rest tokens errors) (token kind literal) ()
      (Stands counted opened read rest
        (tokens ++ [⟨kind, String.ofList read, literal, (Position.start.advance counted).line⟩])
        errors) :=
  goes_lexeme.bind (goes_line.bind (goes_emit _))

/-- A loop moves past the characters of a class, if its condition tells whether one is next and
its step moves past it. -/
theorem goes_loop {p : Char → Bool} {go : Sweep Bool} {step : Sweep Unit}
    (hgo : ∀ read rest, Goes (At opened read rest tokens errors) go (rest.head?.any p)
      (At opened read rest tokens errors))
    (hstep : ∀ read c rest, p c = true → Goes (At opened read (c :: rest) tokens errors) step ()
      (At opened (read ++ [c]) rest tokens errors)) :
    ∀ (rounds : Nat) (read rest : List Char), rest.length < rounds →
      Goes (At opened read rest tokens errors) (loop go step rounds) ()
        (At opened (read ++ rest.takeWhile p) (rest.dropWhile p) tokens errors)
  | rounds + 1, read, [], _ => by
    rw [List.takeWhile_nil, List.append_nil, List.dropWhile_nil]
    exact (hgo read []).no (goes_pure ())
  | rounds + 1, read, c :: rest, hr => by
    have h := hgo read (c :: rest)
    rw [List.head?_cons, Option.any_some] at h
    by_cases hc : p c = true
    · rw [hc] at h
      rw [List.takeWhile_cons_of_pos hc, List.dropWhile_cons_of_pos hc, List.append_cons]
      exact h.yes ((hstep read c rest hc).bind
        (goes_loop hgo hstep rounds (read ++ [c]) rest (Nat.lt_of_succ_lt_succ hr)))
    · rw [List.takeWhile_cons_of_neg hc, List.dropWhile_cons_of_neg hc, List.append_nil]
      rw [Bool.eq_false_iff.2 hc] at h
      exact h.no (goes_pure ())

end Sweep

end Scriptlet
