import Scriptlet.Syntax.Statement

/-!
# Reading with a cursor

A cursor is an index into a list of tokens. The readers here move it along the list and look at
tokens by their index, the ends among them. Nothing in their definitions keeps an index inside of
the list or a loop from running on: a walk that looks outside of the list, or that nests its calls
deeper than it may, has no result.
-/

namespace Scriptlet

/-- The tokens of a reader, the index of the next one, the errors so far with their tokens, and the
places from which tokens were looked at, the last first. -/
structure Cursor where
  tokens : List Token
  place : Nat := 0
  errors : List (SyntaxError.Cause × Token) := []
  trail : List Nat := []

/-- A reader that moves a cursor. One that may fail gives an option, and has reported an error when
it gives nothing. -/
abbrev Walk : Type → Type :=
  StateT Cursor Option

namespace Walk

variable {α : Type}

/-! ### Steps -/

/-- The token at an index. -/
def token (i : Nat) : Walk Token := fun c =>
  c.tokens[i]?.map fun t => (t, { c with trail := c.place :: c.trail })

def peek : Walk Token := do
  token (← get).place

def previous : Walk Token := do
  token ((← get).place - 1)

def atEnd : Walk Bool := do
  return (← peek).kind = .eof

/-- Moves past the next token unless it is an end, and gives the token before the cursor. -/
def advance : Walk Token := do
  if ← atEnd then previous
  else
    modify fun c => { c with place := c.place + 1 }
    previous

def check (kind : Kind) : Walk Bool := do
  if ← atEnd then return false else return (← peek).kind = kind

/-- Moves past the next token if it is of one of the kinds. -/
def accept : List Kind → Walk Bool
  | [] => return false
  | kind :: kinds => do
    if ← check kind then
      let _ ← advance
      return true
    else accept kinds

def report (cause : SyntaxError.Cause) (t : Token) : Walk Unit :=
  modify fun c => { c with errors := c.errors ++ [(cause, t)] }

/-- Reports an error at the next token. -/
def fail (cause : SyntaxError.Cause) : Walk (Option α) := do
  report cause (← peek)
  return none

def expect (kind : Kind) (cause : SyntaxError.Cause) : Walk (Option Token) := do
  if ← check kind then return some (← advance) else fail cause

/-! ### Expressions -/

-- The number is how deep calls may be nested, each round of a loop among them.
mutual

def expression : Nat → Walk (Option Expr)
  | 0 => failure
  | depth + 1 => do
    let some target ← operators Expr.levels depth | return none
    if ← accept [.equal] then
      let equals ← previous
      let some value ← expression depth | return none
      match target with
      | .name token => return some (.assign token value)
      | other =>
        report .assignmentTarget equals
        return some other
    else return some target

/-- Reads operators of the given levels over operands. -/
def operators (ops : List (List Kind)) : Nat → Walk (Option Expr)
  | 0 => failure
  | depth + 1 => do
    match ops with
    | [] => operand depth
    | level :: tighter =>
      let some left ← operators tighter depth | return none
      moreOperators level tighter left depth

/-- Reads further operators of one level, each with its right operand, onto a left operand. -/
def moreOperators (level : List Kind) (tighter : List (List Kind)) (left : Expr) :
    Nat → Walk (Option Expr)
  | 0 => failure
  | depth + 1 => do
    if ← accept level then
      let operator ← previous
      let some right ← operators tighter depth | return none
      moreOperators level tighter (.binary left operator right) depth
    else return some left

def operand : Nat → Walk (Option Expr)
  | 0 => failure
  | depth + 1 => do
    if ← accept [.bang, .minus] then
      let operator ← previous
      let some right ← operand depth | return none
      return some (.unary operator right)
    else
      match (← peek).kind with
      | .kwFalse =>
        let _ ← advance
        return some (.literal (.bool false))
      | .kwTrue =>
        let _ ← advance
        return some (.literal (.bool true))
      | .kwNil =>
        let _ ← advance
        return some (.literal .nil)
      | .number | .string => return some (.literal (← advance).literal)
      | .identifier => return some (.name (← advance))
      | .leftParen =>
        let _ ← advance
        let some inner ← expression depth | return none
        let some _ ← expect .rightParen .closingParen | return none
        return some (.group inner)
      | _ => fail .expression

end

/-! ### Recovery -/

/-- Moves on to the place after a semicolon or before a starter. -/
def skip : Nat → Walk Unit
  | 0 => failure
  | depth + 1 => do
    if ← atEnd then return
    else if (← previous).kind = .semicolon then return
    else if (← peek).kind ∈ Reading.starters then return
    else
      let _ ← advance
      skip depth

/-- Drops the token at an error, unless it starts a `var` or `print` statement. -/
def drop : Walk Unit := do
  if (← peek).kind ∈ [Kind.kwVar, Kind.kwPrint] then return
  else
    let _ ← advance

/-- Moves to where reading goes on after an error. -/
def synchronize (depth : Nat) : Walk Unit := do
  drop
  skip depth
  let _ ← peek -- for the log

/-! ### Statements -/

/-- Reads the initial value of a declaration, if there is one. -/
def initial (depth : Nat) : Walk (Option (Option Expr)) := do
  if ← accept [.equal] then
    let some e ← expression depth | return none
    return some (some e)
  else return some none

/-- Reads a declaration after its `var`. -/
def variableDeclaration (depth : Nat) : Walk (Option Stmt) := do
  let some name ← expect .identifier .variableName | return none
  let some initial ← initial depth | return none
  let some _ ← expect .semicolon .semicolonAfterDeclaration | return none
  return some (.declare name initial)

/-- Reads a print statement after its `print`. -/
def printStatement (depth : Nat) : Walk (Option Stmt) := do
  let some e ← expression depth | return none
  let some _ ← expect .semicolon .semicolonAfterValue | return none
  return some (.print e)

def expressionStatement (depth : Nat) : Walk (Option Stmt) := do
  let some e ← expression depth | return none
  let some _ ← expect .semicolon .semicolonAfterExpression | return none
  return some (.expression e)

/-- Moves on to the next statement if there is no result. -/
def settle (depth : Nat) : Option α → Walk (Option α)
  | some a => return some a
  | none => do
    synchronize depth
    return none

/-- There are no more statements in a block. -/
def atBlockEnd : Walk Bool := do
  if ← check .rightBrace then return true else atEnd

mutual

/-- Reads a statement. One that cannot be read is left out. -/
def declaration : Nat → Walk (Option Stmt)
  | 0 => failure
  | depth + 1 => do
    if ← accept [.kwVar] then settle depth (← variableDeclaration depth)
    else settle depth (← statement depth)

def statement : Nat → Walk (Option Stmt)
  | 0 => failure
  | depth + 1 => do
    if ← accept [.kwPrint] then printStatement depth
    else if ← accept [.leftBrace] then
      let some body ← block depth | return none
      return some (.block body)
    else expressionStatement depth

/-- Reads the statements of a block and the brace that closes it. -/
def block : Nat → Walk (Option (List Stmt))
  | 0 => failure
  | depth + 1 => do
    if ← atBlockEnd then
      let some _ ← expect .rightBrace .closingBrace | return none
      return some []
    else
      let s ← declaration depth
      let some body ← block depth | return none
      return some (s.toList ++ body)

end

/-- Reads a statement, or stops where it cannot be read. -/
def attempt (depth : Nat) : Walk (Option Stmt) := do
  if ← accept [.kwVar] then variableDeclaration depth else statement depth

theorem declaration_succ (depth : Nat) :
    declaration (depth + 1) = attempt depth >>= settle depth := by
  rw [declaration, attempt, bind_assoc]
  refine congrArg _ (funext fun accepted => ?_)
  cases accepted <;> rfl

def program : Nat → Walk (List Stmt)
  | 0 => failure
  | depth + 1 => do
    if ← atEnd then return []
    else
      let s ← declaration depth
      let program ← program depth
      return s.toList ++ program

/-- Reads the rest of the tokens up to an end as one expression. -/
def wholeExpression (depth : Nat) : Walk (Option Expr) := do
  let some e ← expression depth | return none
  if ← atEnd then return some e else fail .endOfExpression

end Walk

/-! ### Calls -/

/-- What a reader is asked for. -/
inductive Call where
  | program
  | expression

/-- What a reader gives: the statements of a program, or an expression if one was read. -/
inductive Trees where
  | program (statements : List Stmt)
  | expression (e : Option Expr)

namespace Walk

def serve (depth : Nat) : Call → Walk Trees
  | .program => do return .program (← program depth)
  | .expression => do return .expression (← wholeExpression depth)

def serveAll (depth : Nat) : List Call → Walk (List Trees)
  | [] => return []
  | call :: calls => do
    let served ← serve depth call
    let others ← serveAll depth calls
    return served :: others

end Walk

namespace TokenStream

def serve (s : TokenStream) : Call → Parsed Trees
  | .program => ⟨.program s.program.value, s.program.errors, s.program.stream⟩
  | .expression => ⟨.expression s.expression.value, s.expression.errors, s.expression.stream⟩

def serveAll (s : TokenStream) : List Call → Parsed (List Trees)
  | [] => ⟨[], [], s⟩
  | call :: calls =>
    let served := s.serve call
    let others := served.stream.serveAll calls
    ⟨served.value :: others.value, served.errors ++ others.errors, others.stream⟩

end TokenStream

/-! ### What a walk does -/

/-- A list of tokens, split at its first end. -/
structure Tape where
  stream : TokenStream
  beyond : List Token
  ahead_ne : ∀ t ∈ stream.ahead, t.kind ≠ .eof
  final_eq : stream.final.kind = .eof

namespace Tape

def tokens (x : Tape) : List Token :=
  x.stream.ahead ++ x.stream.final :: x.beyond

/-- Tokens with an end at their end have a first one. -/
theorem exists_tokens_eq {final : Token} (hfinal : final.kind = .eof) (front : List Token) :
    ∃ x : Tape, x.tokens = front ++ [final] := by
  induction front with
  | nil => exact ⟨⟨⟨[], final⟩, [], List.forall_mem_nil _, hfinal⟩, rfl⟩
  | cons t front ih =>
    by_cases ht : t.kind = .eof
    · exact ⟨⟨⟨[], t⟩, front ++ [final], List.forall_mem_nil _, ht⟩, rfl⟩
    · obtain ⟨x, hx⟩ := ih
      refine ⟨⟨⟨t :: x.stream.ahead, x.stream.final⟩, x.beyond, ?_, x.final_eq⟩, ?_⟩
      · exact List.forall_mem_cons.2 ⟨ht, x.ahead_ne⟩
      · exact congrArg (t :: ·) hx

theorem ofList?_tokens (x : Tape) : TokenStream.ofList? x.tokens = some x.stream :=
  TokenStream.ofList?_append_end x.ahead_ne x.final_eq

theorem findIdx_tokens (x : Tape) :
    x.tokens.findIdx (fun t => t.kind = .eof) = x.stream.ahead.length := by
  rw [tokens, List.findIdx_append, if_neg (by simpa using x.ahead_ne), List.findIdx_cons]
  simp [x.final_eq]

end Tape

/-- The cause of an error and the token at its place, in a stream that ends with `final`. -/
def SyntaxError.located (final : Token) (e : SyntaxError) : SyntaxError.Cause × Token :=
  (e.cause, e.site.head?.getD final)

namespace Cursor

/-- No place is before an earlier one. -/
def Forward (c : Cursor) : Prop :=
  (c.place :: c.trail).Pairwise (· ≥ ·)

/-- The cursor is on the tape, with `rest` from it to the first end. -/
structure Stands (x : Tape) (rest : List Token) (c : Cursor) : Prop where
  tokens : c.tokens = x.tokens
  suffix : rest <:+ x.stream.ahead
  place : c.place + rest.length = x.stream.ahead.length

variable {x : Tape} {c : Cursor} {rest : List Token} {t : Token}

theorem Stands.get_place (h : c.Stands x rest) :
    c.tokens[c.place]? = some (rest.head?.getD x.stream.final) := by
  obtain ⟨front, hfront⟩ := h.suffix
  have hplace : c.place = front.length := by
    have := h.place
    rw [← hfront, List.length_append] at this
    omega
  rw [h.tokens, Tape.tokens, ← hfront, List.append_assoc, hplace,
    List.getElem?_append_right (Nat.le_refl _), Nat.sub_self]
  cases rest <;> rfl

theorem Stands.get_previous (h : c.Stands x rest) (ht : t :: rest <:+ x.stream.ahead) :
    c.tokens[c.place - 1]? = some t := by
  obtain ⟨front, hfront⟩ := ht
  have hplace : c.place - 1 = front.length := by
    have := h.place
    rw [← hfront, List.length_append, List.length_cons] at this
    omega
  rw [h.tokens, Tape.tokens, ← hfront, List.append_assoc, hplace,
    List.getElem?_append_right (Nat.le_refl _), Nat.sub_self]
  rfl

theorem Forward.visit (h : c.Forward) :
    ({ c with trail := c.place :: c.trail } : Cursor).Forward :=
  List.pairwise_cons.2 ⟨fun p hp => by
    rcases List.mem_cons.1 hp with rfl | hp
    · exact Nat.le_refl _
    · exact (List.pairwise_cons.1 h).1 p hp, h⟩

end Cursor

namespace Walk

variable {α β : Type} {x : Tape} {tokens mid rest : List Token} {a : α} {b : β}
  {e e' : List SyntaxError} {t : Token}

/-- From the place before `tokens`, the walk has a result: it gives `a`, reports the errors and
moves forward to the place before `rest`. -/
def Goes (x : Tape) (w : Walk α) (tokens : List Token) (a : α) (e : List SyntaxError)
    (rest : List Token) : Prop :=
  ∀ c : Cursor, c.Stands x tokens → ∃ c', w c = some (a, c') ∧ c'.Stands x rest
    ∧ c'.errors = c.errors ++ e.map (SyntaxError.located x.stream.final)
    ∧ (c.Forward → c'.Forward)

theorem goes_pure (a : α) (tokens : List Token) : Goes x (pure a) tokens a [] tokens :=
  fun c hc => ⟨c, rfl, hc, (List.append_nil _).symm, id⟩

theorem Goes.bind {w : Walk α} {f : α → Walk β} (hw : Goes x w tokens a e mid)
    (hf : Goes x (f a) mid b e' rest) : Goes x (w >>= f) tokens b (e ++ e') rest := by
  intro c hc
  obtain ⟨c₁, hresult₁, hstands₁, herrors₁, hforward₁⟩ := hw c hc
  obtain ⟨c₂, hresult₂, hstands₂, herrors₂, hforward₂⟩ := hf c₁ hstands₁
  refine ⟨c₂, ?_, hstands₂, ?_, hforward₂ ∘ hforward₁⟩
  · show (w c).bind (fun result => f result.1 result.2) = _
    rw [hresult₁]
    exact hresult₂
  · rw [herrors₂, herrors₁, List.map_append, List.append_assoc]

/-- Nothing is reported once the first walk is done. -/
theorem Goes.bind_quiet {w : Walk α} {f : α → Walk β} (hw : Goes x w tokens a e mid)
    (hf : Goes x (f a) mid b [] rest) : Goes x (w >>= f) tokens b e rest := by
  rw [← List.append_nil e]
  exact hw.bind hf

/-- A walk may assume that it is on the tape. -/
theorem goes_of_suffix {w : Walk α} (h : tokens <:+ x.stream.ahead → Goes x w tokens a e rest) :
    Goes x w tokens a e rest :=
  fun c hc => h hc.suffix c hc

/-- A condition that holds. -/
theorem Goes.yes {w : Walk Bool} {v v' : Walk β} (hw : Goes x w tokens true [] mid)
    (hv : Goes x v mid b e rest) : Goes x (do if ← w then v else v') tokens b e rest :=
  hw.bind hv

/-- A condition that does not hold. -/
theorem Goes.no {w : Walk Bool} {v v' : Walk β} (hw : Goes x w tokens false [] mid)
    (hv : Goes x v' mid b e rest) : Goes x (do if ← w then v else v') tokens b e rest :=
  hw.bind hv

theorem goes_look (f : Nat → Nat) (h : ∀ c : Cursor, c.Stands x tokens →
    c.tokens[f c.place]? = some t) : Goes x (do token (f (← get).place)) tokens t [] tokens := by
  intro c hc
  refine ⟨{ c with trail := c.place :: c.trail }, ?_, ⟨hc.tokens, hc.suffix, hc.place⟩,
    (List.append_nil _).symm, Cursor.Forward.visit⟩
  show (c.tokens[f c.place]?).map _ = _
  rw [h c hc]
  rfl

theorem goes_peek (tokens : List Token) :
    Goes x peek tokens (tokens.head?.getD x.stream.final) [] tokens :=
  goes_look (fun place => place) fun _ hc => hc.get_place

theorem goes_peek_nil : Goes x peek [] x.stream.final [] [] :=
  goes_peek []

theorem goes_peek_cons : Goes x peek (t :: rest) t [] (t :: rest) :=
  goes_peek (t :: rest)

theorem goes_previous (h : t :: rest <:+ x.stream.ahead) : Goes x previous rest t [] rest :=
  goes_look (fun place => place - 1) fun _ hc => hc.get_previous h

/-- There is a token to look back at, the next one at the front of the tape. -/
theorem exists_goes_previous (tokens : List Token) :
    ∃ t, Goes x previous tokens t [] tokens := by
  have hlt : x.stream.ahead.length - tokens.length - 1 < x.tokens.length := by
    rw [Tape.tokens, List.length_append, List.length_cons]
    omega
  refine ⟨x.tokens[x.stream.ahead.length - tokens.length - 1],
    goes_look (fun place => place - 1) fun c hc => ?_⟩
  rw [hc.tokens, ← List.getElem?_eq_getElem hlt, ← hc.place, Nat.add_sub_cancel]

theorem goes_atEnd_nil : Goes x atEnd [] true [] [] := by
  refine goes_peek_nil.bind ?_
  rw [decide_eq_true x.final_eq]
  exact goes_pure true []

theorem goes_atEnd_cons : Goes x atEnd (t :: rest) false [] (t :: rest) := by
  refine goes_of_suffix fun h => goes_peek_cons.bind ?_
  rw [decide_eq_false (x.ahead_ne t (h.subset List.mem_cons_self))]
  exact goes_pure false (t :: rest)

theorem goes_move : Goes x (modify fun c => { c with place := c.place + 1 }) (t :: rest) () []
    rest := by
  intro c hc
  refine ⟨{ c with place := c.place + 1 }, rfl,
    ⟨hc.tokens, (List.suffix_cons t rest).trans hc.suffix, ?_⟩, (List.append_nil _).symm,
    fun h => List.pairwise_cons.2 ⟨fun p hp => ?_, (List.pairwise_cons.1 h).2⟩⟩
  · have hplace := hc.place
    rw [List.length_cons] at hplace
    show c.place + 1 + rest.length = _
    omega
  · exact Nat.le_succ_of_le ((List.pairwise_cons.1 h).1 p hp)

theorem goes_advance : Goes x advance (t :: rest) t [] rest :=
  goes_of_suffix fun h => goes_atEnd_cons.no (goes_move.bind (goes_previous h))

theorem exists_goes_advance_nil : ∃ t, Goes x advance [] t [] [] :=
  (exists_goes_previous []).imp fun _ h => goes_atEnd_nil.yes h

theorem goes_check_nil (kind : Kind) : Goes x (check kind) [] false [] [] :=
  goes_atEnd_nil.yes (goes_pure false [])

theorem goes_check_cons (kind : Kind) :
    Goes x (check kind) (t :: rest) (decide (t.kind = kind)) [] (t :: rest) :=
  goes_atEnd_cons.no (goes_peek_cons.bind (goes_pure _ _))

theorem goes_check_of_eq {kind : Kind} (h : t.kind = kind) :
    Goes x (check kind) (t :: rest) true [] (t :: rest) := by
  rw [← decide_eq_true h]
  exact goes_check_cons kind

theorem goes_check_of_ne {kind : Kind} (h : t.kind ≠ kind) :
    Goes x (check kind) (t :: rest) false [] (t :: rest) := by
  rw [← decide_eq_false h]
  exact goes_check_cons kind

theorem goes_accept_nil : ∀ kinds, Goes x (accept kinds) [] false [] []
  | [] => goes_pure false []
  | kind :: kinds => (goes_check_nil kind).no (goes_accept_nil kinds)

theorem goes_accept_of_mem : ∀ {kinds : List Kind}, t.kind ∈ kinds →
    Goes x (accept kinds) (t :: rest) true [] rest
  | kind :: kinds, h => by
    by_cases hk : t.kind = kind
    · exact (goes_check_of_eq hk).yes (goes_advance.bind (goes_pure true rest))
    · exact (goes_check_of_ne hk).no
        (goes_accept_of_mem ((List.mem_cons.1 h).resolve_left hk))

theorem goes_accept_of_not_mem : ∀ {kinds : List Kind}, t.kind ∉ kinds →
    Goes x (accept kinds) (t :: rest) false [] (t :: rest)
  | [], _ => goes_pure false (t :: rest)
  | _ :: _, h => (goes_check_of_ne (List.ne_of_not_mem_cons h)).no
    (goes_accept_of_not_mem (List.not_mem_of_not_mem_cons h))

theorem goes_accept_of_eq {kind : Kind} (h : t.kind = kind) :
    Goes x (accept [kind]) (t :: rest) true [] rest :=
  goes_accept_of_mem (List.mem_singleton.2 h)

theorem goes_accept_of_ne {kind : Kind} (h : t.kind ≠ kind) :
    Goes x (accept [kind]) (t :: rest) false [] (t :: rest) :=
  goes_accept_of_not_mem (mt List.mem_singleton.1 h)

/-- A token that was accepted is the one to look back at. -/
theorem Goes.accepted {kinds : List Kind} {k : Token → Walk β} {v : Walk β} (h : t.kind ∈ kinds)
    (hk : Goes x (k t) mid b e rest) :
    Goes x (do if ← accept kinds then previous >>= k else v) (t :: mid) b e rest :=
  goes_of_suffix fun hsuffix => (goes_accept_of_mem h).yes ((goes_previous hsuffix).bind hk)

theorem goes_report (cause : SyntaxError.Cause) (site tokens : List Token) :
    Goes x (report cause (site.head?.getD x.stream.final)) tokens () [⟨cause, site⟩] tokens :=
  fun c hc => ⟨{ c with errors := c.errors ++ [(cause, site.head?.getD x.stream.final)] }, rfl,
    ⟨hc.tokens, hc.suffix, hc.place⟩, rfl, id⟩

theorem goes_fail (cause : SyntaxError.Cause) (tokens : List Token) :
    Goes x (fail cause : Walk (Option α)) tokens none [⟨cause, tokens⟩] tokens :=
  (goes_peek tokens).bind ((goes_report cause tokens tokens).bind (goes_pure none tokens))

end Walk

end Scriptlet
