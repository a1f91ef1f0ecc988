import Mathlib.Data.List.Basic
import Scriptlet.Proofs.Cursor

/-!
# Readers with a cursor read what streams read

Each reader with a cursor follows the reading of the tokens ahead of the cursor, up to the first end
(`Walk.Follows`): it gives the same, reports the same errors at the same tokens, and leaves the
cursor before the tokens that the reading leaves. It does so once its calls may be nested as deep as
in proportion to the number of tokens. So it always ends, it never looks outside of the tokens, and
its cursor only moves forward, to the first end at most (`Walk.serveAll_of_end`).
-/

namespace Scriptlet

namespace Reading

variable {α β : Type} {tokens : List Token}

/-- The errors of a reading, the one that stopped it included. -/
def told (r : Attempt tokens α) : List SyntaxError :=
  match r.value with
  | .ok _ => r.errors
  | .error cause => r.errors ++ [⟨cause, r.rest⟩]

theorem told_of_ok {r : Attempt tokens α} {a : α} (h : r.value = .ok a) : r.told = r.errors := by
  simp only [told, h]

theorem told_of_error {r : Attempt tokens α} {cause : SyntaxError.Cause}
    (h : r.value = .error cause) : r.told = r.errors ++ [⟨cause, r.rest⟩] := by
  simp only [told, h]

theorem told_bind (r : Reading tokens α)
    (f : α → (rest : List Token) → rest <:+ tokens → Attempt rest β) :
    told (r.bind f) = r.errors ++ (f r.value r.rest r.suffix).told := by
  rcases h : (f r.value r.rest r.suffix).value with cause | b
  · rw [told_of_error h, told_of_error (r := r.bind f) h, ← List.append_assoc]
    rfl
  · rw [told_of_ok h, told_of_ok (r := r.bind f) h]
    rfl

end Reading

/-- A program is read to the end of the tokens. -/
theorem Stmt.rest_parseAll (tokens : List Token) : (parseAll tokens).rest = [] := by
  match tokens with
  | [] => rw [parseAll, Reading.rest_here]
  | t :: after =>
    have hle := (Stmt.parse t after).suffix.length_le
    rw [parseAll]
    exact rest_parseAll (Stmt.parse t after).rest
termination_by tokens.length
decreasing_by
  simp
  omega

theorem Reading.recover_past {α : Type} {tokens : List Token} {t : Token} (r : Attempt tokens α) :
    (r.past : Attempt (t :: tokens) α).recover = r.recover.past := by
  obtain ⟨value, _, _, _⟩ := r
  cases value <;> rfl

namespace Stmt

/-- Reads the statement that starts with `t`, or stops where it cannot be read. -/
def attempt (t : Token) (after : List Token) : Attempt (t :: after) Stmt :=
  if t.kind = .kwVar then (parseDeclaration after).past
  else if t.kind = .kwPrint then (parsePrint after).past
  else if t.kind = .leftBrace then
    ((parseBlock after).andThen fun body _ _ => .done (.block body)).past
  else parseExpression (t :: after)

theorem past_parse (t : Token) (after : List Token) :
    (parse t after).past = (attempt t after).recover := by
  rw [parse, attempt]
  split
  · exact (Reading.recover_past _).symm
  split
  · exact (Reading.recover_past _).symm
  split
  · exact (Reading.recover_past _).symm
  · rfl

end Stmt

namespace Walk

open Reading

variable {α β : Type} {x : Tape} {tokens start : List Token}

/-- The walk does what the reading does, and reports the error that stops it. -/
def Follows (x : Tape) (w : Walk (Option α)) (r : Attempt tokens α) : Prop :=
  Goes x w tokens r.value.toOption r.told r.rest

theorem follows_done (a : α) : Follows x (pure (some a)) (done a : Attempt tokens α) :=
  goes_pure (some a) tokens

theorem follows_fail (cause : SyntaxError.Cause) :
    Follows x (fail cause) (Reading.fail cause : Attempt tokens α) :=
  goes_fail cause tokens

/-- A walk that starts one token earlier. -/
theorem Goes.past {w : Walk (Option α)} {t : Token} {r : Attempt tokens α}
    (h : Goes x w (t :: tokens) r.value.toOption r.told r.rest) :
    Follows x w (r.past : Attempt (t :: tokens) α) :=
  h

theorem Goes.bind_follows {w : Walk α} {k : α → Walk (Option β)} {r : Reading tokens α}
    {f : α → (rest : List Token) → rest <:+ tokens → Attempt rest β}
    (hw : Goes x w start r.value r.errors r.rest)
    (hf : Follows x (k r.value) (f r.value r.rest r.suffix)) :
    Goes x (w >>= k) start (r.bind f).value.toOption (told (r.bind f)) (r.bind f).rest := by
  rw [told_bind]
  exact hw.bind hf

/-- What a walk does with the result of another, nothing but fail if that one failed. -/
theorem Follows.andThen {w : Walk (Option α)} {k : Option α → Walk (Option β)}
    {r : Attempt tokens α} {f : α → (rest : List Token) → rest <:+ tokens → Attempt rest β}
    (hw : Follows x w r) (hnone : k none = pure none)
    (hf : ∀ a rest (hs : rest <:+ tokens), Follows x (k (some a)) (f a rest hs)) :
    Follows x (w >>= k) (r.andThen f) := by
  rcases h : r.value with cause | a
  · rw [andThen_of_error h]
    rw [Follows, h, told_of_error h] at hw
    have hk := hw.bind (f := k) (hnone ▸ goes_pure none r.rest)
    rwa [List.append_nil] at hk
  · rw [andThen_of_ok h]
    rw [Follows, h, told_of_ok h] at hw
    rw [Follows, told_bind]
    exact hw.bind (hf a r.rest r.suffix)

theorem goes_expect_of_eq {t : Token} {after : List Token} {kind : Kind} (cause : SyntaxError.Cause)
    (h : t.kind = kind) : Goes x (expect kind cause) (t :: after) (some t) [] after :=
  (goes_check_of_eq h).yes (goes_advance.bind (goes_pure (some t) after))

theorem follows_expect (kind : Kind) (cause : SyntaxError.Cause) :
    ∀ tokens : List Token, Follows x (expect kind cause) (Reading.expect kind cause tokens)
  | [] => (goes_check_nil kind).no (goes_fail cause [])
  | t :: after => by
    rw [Reading.expect]
    split
    · rename_i hk
      exact goes_expect_of_eq cause hk
    · rename_i hk
      exact (goes_check_of_ne hk).no (goes_fail cause (t :: after))

/-! ### Expressions -/

-- The induction is on the depth. What the depth has to exceed goes down with every call, since 13
-- for a token is more than the readers of one token need among themselves.
mutual

theorem follows_expression : ∀ (depth : Nat) (tokens : List Token),
    13 * tokens.length + 12 < depth → Follows x (expression depth) (Expr.parse tokens)
  | depth + 1, tokens, hd => by
    have hlevels : Expr.levels.length = 4 := rfl
    rw [expression, Expr.parse]
    refine (follows_operators Expr.levels depth tokens (by omega)).andThen rfl
      fun target rest hs => ?_
    have hle := hs.length_le
    match rest, hle with
    | [], _ => exact (goes_accept_nil _).no (follows_done target)
    | equals :: after, hle =>
      simp only
      by_cases hk : equals.kind = .equal
      · rw [if_pos hk]
        have hlt : after.length < tokens.length := hle
        refine Goes.accepted (List.mem_singleton.2 hk) ?_
        refine (follows_expression depth after (by omega)).andThen rfl fun value rest _ => ?_
        cases target with
        | name t => exact follows_done _
        | _ =>
          exact (goes_report .assignmentTarget (equals :: after) rest).bind (goes_pure _ rest)
      · rw [if_neg hk]
        exact (goes_accept_of_ne hk).no (follows_done target)

theorem follows_operators : ∀ (ops : List (List Kind)) (depth : Nat) (tokens : List Token),
    13 * tokens.length + (2 * ops.length + 1) < depth →
    Follows x (operators ops depth) (Expr.parseLevels ops tokens)
  | [], depth + 1, tokens, hd => by
    rw [operators, Expr.parseLevels]
    exact follows_operand depth tokens (Nat.lt_of_succ_lt_succ hd)
  | level :: tighter, depth + 1, tokens, hd => by
    rw [List.length_cons] at hd
    rw [operators, Expr.parseLevels]
    refine (follows_operators tighter depth tokens (by omega)).andThen rfl fun left rest hs => ?_
    have hle := hs.length_le
    exact follows_moreOperators level tighter left depth rest (by omega)

theorem follows_moreOperators (level : List Kind) (tighter : List (List Kind)) (left : Expr) :
    ∀ (depth : Nat) (tokens : List Token),
    13 * tokens.length + (2 * tighter.length + 2) < depth →
    Follows x (moreOperators level tighter left depth)
      (Expr.parseMore level tighter left tokens)
  | depth + 1, [], _ => by
    rw [moreOperators, Expr.parseMore]
    exact (goes_accept_nil level).no (follows_done left)
  | depth + 1, operator :: after, hd => by
    rw [List.length_cons] at hd
    rw [moreOperators, Expr.parseMore]
    split
    · rename_i hk
      refine Goes.accepted hk ?_
      refine (follows_operators tighter depth after (by omega)).andThen rfl
        fun right rest hs => ?_
      have hle := hs.length_le
      exact follows_moreOperators level tighter (.binary left operator right) depth rest (by omega)
    · rename_i hk
      exact (goes_accept_of_not_mem hk).no (follows_done left)

theorem follows_operand : ∀ (depth : Nat) (tokens : List Token), 13 * tokens.length < depth →
    Follows x (operand depth) (Expr.parseOperand tokens)
  | depth + 1, [], _ => by
    rw [operand, Expr.parseOperand]
    refine (goes_accept_nil _).no (goes_peek_nil.bind ?_)
    rw [x.final_eq]
    exact follows_fail .expression
  | depth + 1, t :: after, hd => by
    rw [List.length_cons] at hd
    rw [operand, Expr.parseOperand]
    split
    case h_1 hk | h_2 hk =>
      have hmem : t.kind ∈ [Kind.bang, Kind.minus] := by rw [hk]; decide
      refine Goes.accepted hmem ?_
      exact (follows_operand depth after (by omega)).andThen rfl fun right _ _ => follows_done _
    case h_9 hk =>
      have hmem : t.kind ∉ [Kind.bang, Kind.minus] := by rw [hk]; decide
      refine (goes_accept_of_not_mem hmem).no (goes_peek_cons.bind ?_)
      rw [hk]
      refine goes_advance.bind ((follows_expression depth after (by omega)).andThen rfl
        fun inner rest _ => ?_)
      exact (follows_expect .rightParen .closingParen rest).andThen rfl fun _ _ _ =>
        follows_done _
    case h_10 =>
      have hmem : t.kind ∉ [Kind.bang, Kind.minus] := by simp_all
      refine (goes_accept_of_not_mem hmem).no (goes_peek_cons.bind ?_)
      split
      all_goals first | contradiction | exact follows_fail .expression
    all_goals
      rename_i hk
      have hmem : t.kind ∉ [Kind.bang, Kind.minus] := by rw [hk]; decide
      refine (goes_accept_of_not_mem hmem).no (goes_peek_cons.bind ?_)
      rw [hk]
      exact goes_advance.bind (follows_done _)

end

/-! ### Recovery -/

theorem goes_skip : ∀ (depth : Nat) (dropped : Token) (tokens : List Token),
    tokens.length < depth → dropped :: tokens <:+ x.stream.ahead →
    Goes x (skip depth) tokens () [] (Reading.skip dropped tokens)
  | depth + 1, dropped, [], _, _ => by
    rw [skip]
    exact goes_atEnd_nil.yes (goes_pure () [])
  | depth + 1, dropped, t :: after, hd, h => by
    rw [skip]
    refine goes_atEnd_cons.no ((goes_previous h).bind ?_)
    by_cases hdropped : dropped.kind = .semicolon
    · rw [if_pos hdropped, Reading.skip, if_pos (.inl hdropped)]
      exact goes_pure () (t :: after)
    rw [if_neg hdropped]
    refine goes_peek_cons.bind ?_
    by_cases hstarter : t.kind ∈ starters
    · rw [if_pos hstarter, Reading.skip, if_pos (.inr hstarter)]
      exact goes_pure () (t :: after)
    · rw [if_neg hstarter, Reading.skip, if_neg (not_or.2 ⟨hdropped, hstarter⟩)]
      have hafter := (List.suffix_cons dropped (t :: after)).trans h
      exact goes_advance.bind (goes_skip depth t after (Nat.lt_of_succ_lt_succ hd) hafter)

/-- A cursor before a starter stays there, whatever is behind it. -/
theorem goes_skip_starter (depth : Nat) {t : Token} {after : List Token}
    (h : t.kind ∈ starters) : Goes x (skip (depth + 1)) (t :: after) () [] (t :: after) := by
  rw [skip]
  obtain ⟨dropped, hprevious⟩ := exists_goes_previous (x := x) (t :: after)
  refine goes_atEnd_cons.no (hprevious.bind ?_)
  by_cases hdropped : dropped.kind = .semicolon
  · rw [if_pos hdropped]
    exact goes_pure () (t :: after)
  · rw [if_neg hdropped]
    refine goes_peek_cons.bind ?_
    rw [if_pos h]
    exact goes_pure () (t :: after)

theorem goes_synchronize : ∀ (depth : Nat) (tokens : List Token), tokens.length < depth →
    Goes x (synchronize depth) tokens () [] (resume tokens)
  | depth + 1, [], _ => by
    have hdrop : Goes x drop [] () [] [] := by
      obtain ⟨_, hadvance⟩ := exists_goes_advance_nil (x := x)
      refine goes_peek_nil.bind ?_
      rw [x.final_eq, if_neg (by decide)]
      exact hadvance.bind (goes_pure () [])
    have hskip : Goes x (skip (depth + 1)) [] () [] [] := by
      rw [skip]
      exact goes_atEnd_nil.yes (goes_pure () [])
    exact hdrop.bind (hskip.bind (goes_peek_nil.bind (goes_pure () [])))
  | depth + 1, t :: after, hd => by
    rw [resume]
    by_cases h : t.kind = .kwVar ∨ t.kind = .kwPrint
    · have hdrop : Goes x drop (t :: after) () [] (t :: after) := by
        refine goes_peek_cons.bind ?_
        rw [if_pos (by simpa using h)]
        exact goes_pure () (t :: after)
      have hstarter : t.kind ∈ starters := by rcases h with h | h <;> rw [h] <;> decide
      rw [if_pos h]
      exact hdrop.bind ((goes_skip_starter depth hstarter).bind
        (goes_peek_cons.bind (goes_pure () (t :: after))))
    · have hdrop : Goes x drop (t :: after) () [] after := by
        refine goes_peek_cons.bind ?_
        rw [if_neg (by simpa using h)]
        exact goes_advance.bind (goes_pure () after)
      have hlt : after.length < depth + 1 := Nat.lt_of_succ_lt hd
      rw [if_neg h]
      exact goes_of_suffix fun hsuffix => hdrop.bind ((goes_skip _ t after hlt hsuffix).bind
        ((goes_peek _).bind (goes_pure () _)))

/-- Settling a result is recovering from it. -/
theorem Goes.settle {w : Walk (Option α)} {r : Attempt tokens α} {depth : Nat}
    (hw : Goes x w start r.value.toOption r.told r.rest) (hd : tokens.length < depth) :
    Goes x (w >>= Walk.settle depth) start r.recover.value r.recover.errors r.recover.rest := by
  have hrest := Nat.lt_of_le_of_lt r.suffix.length_le hd
  rcases h : r.value with cause | a
  · rw [h, told_of_error h] at hw
    rw [recover_of_error h]
    exact hw.bind_quiet ((goes_synchronize depth r.rest hrest).bind (goes_pure none _))
  · rw [h, told_of_ok h] at hw
    rw [recover_of_ok h]
    exact hw.bind_quiet (f := Walk.settle depth) (goes_pure (some a) r.rest)

/-! ### Statements -/

theorem follows_initial {depth : Nat} : ∀ tokens : List Token, 13 * tokens.length + 12 < depth →
    Follows x (initial depth) (Stmt.parseInitial tokens)
  | [], _ => (goes_accept_nil _).no (follows_done none)
  | t :: after, hd => by
    rw [List.length_cons] at hd
    rw [Stmt.parseInitial]
    by_cases hk : t.kind = .equal
    · rw [if_pos hk]
      exact (goes_accept_of_eq hk).yes
        ((follows_expression depth after (by omega)).andThen rfl fun e _ _ =>
          follows_done (some e))
    · rw [if_neg hk]
      exact (goes_accept_of_ne hk).no (follows_done none)

theorem follows_variableDeclaration {depth : Nat} {tokens : List Token}
    (hd : 13 * tokens.length + 12 < depth) :
    Follows x (variableDeclaration depth) (Stmt.parseDeclaration tokens) := by
  refine (follows_expect .identifier .variableName tokens).andThen rfl fun _ rest hs => ?_
  have hle := hs.length_le
  refine (follows_initial rest (by omega)).andThen rfl fun _ rest _ => ?_
  exact (follows_expect .semicolon .semicolonAfterDeclaration rest).andThen rfl fun _ _ _ =>
    follows_done _

theorem follows_printStatement {depth : Nat} {tokens : List Token}
    (hd : 13 * tokens.length + 12 < depth) :
    Follows x (printStatement depth) (Stmt.parsePrint tokens) :=
  (follows_expression depth tokens hd).andThen rfl fun _ rest _ =>
    (follows_expect .semicolon .semicolonAfterValue rest).andThen rfl fun _ _ _ =>
      follows_done _

theorem follows_expressionStatement {depth : Nat} {tokens : List Token}
    (hd : 13 * tokens.length + 12 < depth) :
    Follows x (expressionStatement depth) (Stmt.parseExpression tokens) :=
  (follows_expression depth tokens hd).andThen rfl fun _ rest _ =>
    (follows_expect .semicolon .semicolonAfterExpression rest).andThen rfl fun _ _ _ =>
      follows_done _

mutual

theorem follows_attempt : ∀ (depth : Nat) (t : Token) (after : List Token),
    13 * (t :: after).length + 13 < depth →
    Follows x (attempt depth) (Stmt.attempt t after)
  | depth + 1, t, after, hd => by
    rw [List.length_cons] at hd
    rw [attempt, Stmt.attempt]
    split
    · rename_i hvar
      exact (goes_accept_of_eq hvar).yes (follows_variableDeclaration (by omega))
    rename_i hvar
    refine (goes_accept_of_ne hvar).no ?_
    rw [statement]
    split
    · rename_i hprint
      exact (goes_accept_of_eq hprint).yes (follows_printStatement (by omega))
    rename_i hprint
    refine (goes_accept_of_ne hprint).no ?_
    split
    · rename_i hbrace
      refine (goes_accept_of_eq hbrace).yes ?_
      exact (follows_block depth after (by omega)).andThen rfl fun body _ _ => follows_done _
    · rename_i hbrace
      refine (goes_accept_of_ne hbrace).no (follows_expressionStatement ?_)
      rw [List.length_cons]
      omega

theorem goes_declaration : ∀ (depth : Nat) (t : Token) (after : List Token),
    13 * (t :: after).length + 14 < depth →
    Goes x (declaration depth) (t :: after) (Stmt.parse t after).value (Stmt.parse t after).errors
      (Stmt.parse t after).rest
  | depth + 1, t, after, hd => by
    have hlt : (t :: after).length < depth := by omega
    have h := (follows_attempt depth t after (by omega)).settle hlt
    rw [← Stmt.past_parse] at h
    rw [declaration_succ]
    exact h

theorem follows_block : ∀ (depth : Nat) (tokens : List Token), 13 * tokens.length + 15 < depth →
    Follows x (block depth) (Stmt.parseBlock tokens)
  | depth + 1, [], _ => by
    rw [block, Stmt.parseBlock]
    refine ((goes_check_nil .rightBrace).no goes_atEnd_nil).yes ?_
    exact (follows_expect .rightBrace .closingBrace []).bind (goes_pure none [])
  | depth + 1, t :: after, hd => by
    rw [block, Stmt.parseBlock]
    split
    · rename_i hbrace
      refine ((goes_check_of_eq hbrace).yes (goes_pure true (t :: after))).yes ?_
      refine (goes_expect_of_eq .closingBrace hbrace).bind ?_
      exact goes_pure (some []) after
    · rename_i hbrace
      refine ((goes_check_of_ne hbrace).no goes_atEnd_cons).no ?_
      have hle := (Stmt.parse t after).suffix.length_le
      have hlength : (t :: after).length = after.length + 1 := rfl
      refine Goes.past ((goes_declaration depth t after (by omega)).bind_follows ?_)
      exact (follows_block depth _ (by omega)).andThen rfl fun body _ _ => follows_done _

end

theorem goes_program : ∀ (depth : Nat) (tokens : List Token), 13 * tokens.length + 15 < depth →
    Goes x (program depth) tokens (Stmt.parseAll tokens).value (Stmt.parseAll tokens).errors
      (Stmt.parseAll tokens).rest
  | depth + 1, [], _ => by
    rw [program, Stmt.parseAll]
    exact goes_atEnd_nil.yes (goes_pure [] [])
  | depth + 1, t :: after, hd => by
    rw [program, Stmt.parseAll]
    have hle := (Stmt.parse t after).suffix.length_le
    have hlength : (t :: after).length = after.length + 1 := rfl
    refine goes_atEnd_cons.no ((goes_declaration depth t after (by omega)).bind ?_)
    exact (goes_program depth (Stmt.parse t after).rest (by omega)).bind (goes_pure _ _)

/-! ### Calls -/

theorem goes_wholeExpression {depth : Nat} {s : TokenStream}
    (hd : 13 * s.ahead.length + 12 < depth) :
    Goes x (wholeExpression depth) s.ahead s.expression.value s.expression.errors
      s.expression.stream.ahead := by
  have hw : Follows x (expression depth) (Expr.parse s.ahead) := follows_expression depth _ hd
  rw [TokenStream.expression]
  rcases h : (Expr.parse s.ahead).value with cause | e
  · rw [Follows, h, told_of_error h] at hw
    exact hw.bind_quiet (goes_pure none _)
  rw [Follows, h, told_of_ok h] at hw
  simp only
  cases hrest : (Expr.parse s.ahead).rest with
  | nil =>
    rw [hrest] at hw
    exact hw.bind_quiet (goes_atEnd_nil.yes (goes_pure (some e) []))
  | cons t after =>
    rw [hrest] at hw
    exact hw.bind (goes_atEnd_cons.no (goes_fail .endOfExpression (t :: after)))

theorem goes_serve {depth : Nat} {s : TokenStream} (hd : 13 * s.ahead.length + 15 < depth) :
    ∀ call : Call, Goes x (serve depth call) s.ahead (s.serve call).value (s.serve call).errors
      (s.serve call).stream.ahead
  | .program => (goes_program depth s.ahead hd).bind_quiet (goes_pure _ _)
  | .expression =>
    (goes_wholeExpression (Nat.lt_of_le_of_lt (by omega) hd)).bind_quiet (goes_pure _ _)

theorem length_serve_le (s : TokenStream) (call : Call) :
    (s.serve call).stream.ahead.length ≤ s.ahead.length := by
  cases call with
  | program => exact (Stmt.parseAll s.ahead).suffix.length_le
  | expression =>
    have hle := (Expr.parse s.ahead).suffix.length_le
    simp only [TokenStream.serve, TokenStream.expression]
    split
    · exact hle
    · split <;> exact hle

theorem goes_serveAll {depth : Nat} : ∀ (calls : List Call) (s : TokenStream),
    13 * s.ahead.length + 15 < depth →
    Goes x (serveAll depth calls) s.ahead (s.serveAll calls).value (s.serveAll calls).errors
      (s.serveAll calls).stream.ahead
  | [], s, _ => goes_pure [] s.ahead
  | call :: calls, s, hd => by
    have hle := length_serve_le s call
    have hd' : 13 * (s.serve call).stream.ahead.length + 15 < depth := by omega
    exact (goes_serve hd call).bind ((goes_serveAll calls _ hd').bind_quiet (goes_pure _ _))

/-- A stream that was last read as a program has nothing ahead. -/
theorem ahead_serveAll {calls : List Call} (h : calls.getLast? = some .program)
    (s : TokenStream) : (s.serveAll calls).stream.ahead = [] := by
  induction calls generalizing s with
  | nil => cases h
  | cons call calls ih =>
    cases calls with
    | nil =>
      obtain rfl := Option.some.inj h
      exact Stmt.rest_parseAll s.ahead
    | cons next calls =>
      rw [List.getLast?_cons_cons] at h
      exact ih h (s.serve call).stream

/-- Before an end, a declaration moves on, whether it is read or left out. -/
theorem declaration_advances {depth : Nat} {c : Cursor} (htokens : c.tokens = x.tokens)
    (hplace : c.place < x.stream.ahead.length) (hd : 13 * x.stream.ahead.length + 14 < depth) :
    ∃ given c', declaration depth c = some (given, c') ∧ c.place < c'.place
      ∧ c'.place ≤ x.stream.ahead.length := by
  obtain ⟨t, after, hahead⟩ : ∃ t after, x.stream.ahead.drop c.place = t :: after :=
    List.exists_cons_of_ne_nil (mt List.drop_eq_nil_iff.1 (Nat.not_le.2 hplace))
  have hlength := congrArg List.length hahead
  rw [List.length_drop] at hlength
  have hstands : c.Stands x (t :: after) := ⟨htokens, hahead ▸ List.drop_suffix _ _, by omega⟩
  obtain ⟨c', hresult, hstands', -, -⟩ := goes_declaration depth t after (by omega) c hstands
  have hle := (Stmt.parse t after).suffix.length_le
  have hplace' := hstands'.place
  rw [List.length_cons] at hlength
  exact ⟨_, c', hresult, by omega, by omega⟩

/-- As deep as a reader of tokens ever nests its calls. -/
def depthFor (tokens : List Token) : Nat :=
  13 * tokens.length + 16

/-- A reader of tokens with an end at their end has a result for every sequence of calls, the one
that the streams give: it always ends, with its calls nested no deeper than in proportion to the
number of tokens, and it never looks outside of the tokens. Its cursor never moves back and never
passes the first end, which is where it stands after a program. From every place before that end, a
declaration moves it on, whether it is read or left out. -/
theorem serveAll_of_end (front : List Token) {final : Token} (hfinal : final.kind = .eof) :
    let tokens := front ++ [final]
    let first := tokens.findIdx fun t => t.kind = .eof
    ∃ s, TokenStream.ofList? tokens = some s ∧ ∀ depth, depthFor tokens ≤ depth →
      (∀ calls, ∃ c, serveAll depth calls { tokens } = some ((s.serveAll calls).value, c)
        ∧ c.errors = (s.serveAll calls).errors.map (SyntaxError.located s.final)
        ∧ (s.serveAll calls).stream.ahead = s.ahead.drop c.place
        ∧ c.Forward ∧ (∀ place ∈ c.place :: c.trail, place ≤ first)
        ∧ (calls.getLast? = some .program → c.place = first))
      ∧ ∀ c : Cursor, c.tokens = tokens → c.place < first → ∃ given c',
        declaration depth c = some (given, c') ∧ c.place < c'.place ∧ c'.place ≤ first := by
  intro tokens first
  obtain ⟨x, hx⟩ := Tape.exists_tokens_eq hfinal front
  have hfirst : first = x.stream.ahead.length := by
    rw [← x.findIdx_tokens, hx]
  refine ⟨x.stream, (congrArg _ hx).symm.trans x.ofList?_tokens, fun depth hdepth => ?_⟩
  have hd : 13 * x.stream.ahead.length + 15 < depth := by
    have hle : x.stream.ahead.length ≤ tokens.length := hfirst ▸ List.findIdx_le_length
    rw [depthFor] at hdepth
    omega
  refine ⟨fun calls => ?_, fun c htokens hplace => ?_⟩
  · have hstart : Cursor.Stands x x.stream.ahead { tokens } :=
      ⟨hx.symm, List.suffix_rfl, Nat.zero_add _⟩
    obtain ⟨c, hresult, hstands, herrors, hforward⟩ := goes_serveAll calls x.stream hd _ hstart
    have hc : c.Forward := hforward (List.pairwise_singleton _ _)
    have hplace := hstands.place
    refine ⟨c, hresult, herrors, ?_, hc, fun place h => ?_, fun hlast => ?_⟩
    · obtain ⟨read, hread⟩ := hstands.suffix
      rw [← hread, List.length_append] at hplace
      rw [← hread, show c.place = read.length by omega, List.drop_left]
    · have hle : place ≤ c.place := by
        rcases List.mem_cons.1 h with rfl | h
        · exact Nat.le_refl _
        · exact (List.pairwise_cons.1 hc).1 place h
      omega
    · rw [ahead_serveAll hlast] at hplace
      rw [hfirst, ← hplace]
      rfl
  · rw [hfirst] at hplace ⊢
    exact declaration_advances (htokens.trans hx.symm) hplace (by omega)

theorem serveAll_of_end_twoEnds :
    let word : Token := ⟨.kwVar, "var", .nil, 1⟩
    let front := [word, .atEnd 1, ⟨.kwPrint, "print", .nil, 2⟩]
    (Token.atEnd 2).kind = .eof ∧ ∃ c,
      serveAll 68 [.expression, .program, .expression] { tokens := front ++ [.atEnd 2] }
          = some ([.expression none, .program [], .expression none], c)
        ∧ c.errors = [(.expression, word), (.variableName, .atEnd 1), (.expression, .atEnd 1)]
        ∧ c.Forward ∧ ∀ place ∈ c.place :: c.trail, place ≤ 1 := by
  intro word front
  have hfinal : (Token.atEnd 2).kind = .eof := rfl
  obtain ⟨s, hs, hdepth⟩ := serveAll_of_end front hfinal
  obtain rfl : (⟨[word], .atEnd 1⟩ : TokenStream) = s := Option.some.inj hs
  have hle : depthFor (front ++ [.atEnd 2]) ≤ 68 := Nat.le_refl 68
  obtain ⟨c, hresult, herrors, -, hforward, hfirst, -⟩ :=
    (hdepth 68 hle).1 [.expression, .program, .expression]
  refine ⟨hfinal, c, ?_, ?_, hforward, hfirst⟩
  · rw [hresult]
    cbv
  · rw [herrors]
    cbv

end Walk

end Scriptlet
