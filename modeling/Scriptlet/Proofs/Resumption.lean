import Mathlib.Order.Bounds.Basic
import Scriptlet.Proofs.CursorReading

/-!
# Where reading goes on after an error

A statement that cannot be read is given up at the token of its error. Skipping then looks back at
the token dropped last and ahead at the next one, over and over. What it finds is one place among
all the tokens: the first one that reading can go on from (`Restart`), at the error itself if an
end, `var` or `print` is there, and after it otherwise (`TokenStream.parse_resumes`).
-/

namespace Scriptlet

/-- Reading can go on before the token at the place: it is an end or starts a statement, or the one
before it is a semicolon. -/
inductive Restart (tokens : List Token) : Nat → Prop
  | atEnd {j : Nat} {t : Token} (h : tokens[j]? = some t) (hk : t.kind = .eof) : Restart tokens j
  | afterSemicolon {j : Nat} {t : Token} (h : tokens[j]? = some t) (hk : t.kind = .semicolon) :
      Restart tokens (j + 1)
  | starter {j : Nat} {t : Token} (h : tokens[j]? = some t)
      (hk : t.kind ∈ [.kwClass, .kwFun, .kwVar, .kwFor, .kwIf, .kwWhile, .kwPrint, .kwReturn]) :
      Restart tokens j

/-- The first place to look at after an error. The token at the error is left out unless it is an
end, `var` or `print`. -/
def restartFrom (tokens : List Token) (i : Nat) : Nat :=
  if tokens[i]?.any fun t => t.kind ∈ [Kind.eof, .kwVar, .kwPrint] then i else i + 1

theorem restartFrom_of_mem {tokens : List Token} {i : Nat} {t : Token} (h : tokens[i]? = some t)
    (hk : t.kind ∈ [Kind.eof, .kwVar, .kwPrint]) : restartFrom tokens i = i := by
  rw [restartFrom, h, Option.any_some, if_pos (decide_eq_true hk)]

theorem restartFrom_of_not_mem {tokens : List Token} {i : Nat} {t : Token} (h : tokens[i]? = some t)
    (hk : t.kind ∉ [Kind.eof, .kwVar, .kwPrint]) : restartFrom tokens i = i + 1 := by
  rw [restartFrom, h, Option.any_some, if_neg (by simpa using hk)]

namespace Tape

variable {x : Tape} {t dropped : Token} {after rest site : List Token}

/-- Where the rest of the tokens before the first end starts. -/
def place (x : Tape) (rest : List Token) : Nat :=
  x.stream.ahead.length - rest.length

theorem place_add_length (h : rest <:+ x.stream.ahead) :
    x.place rest + rest.length = x.stream.ahead.length :=
  Nat.sub_add_cancel h.length_le

theorem place_after (h : t :: after <:+ x.stream.ahead) :
    x.place after = x.place (t :: after) + 1 := by
  have hcons := place_add_length h
  have hafter := place_add_length ((List.suffix_cons t after).trans h)
  rw [List.length_cons] at hcons
  omega

theorem drop_place (h : rest <:+ x.stream.ahead) : x.stream.ahead.drop (x.place rest) = rest := by
  obtain ⟨front, hfront⟩ := h
  have hplace : x.place rest = front.length := by
    rw [place, ← hfront, List.length_append, Nat.add_sub_cancel]
  rw [hplace, ← hfront, List.drop_left]

theorem get_place (h : rest <:+ x.stream.ahead) :
    x.tokens[x.place rest]? = some (rest.head?.getD x.stream.final) := by
  have hstands : Cursor.Stands x rest { tokens := x.tokens, place := x.place rest } :=
    ⟨rfl, h, place_add_length h⟩
  exact hstands.get_place

theorem restart_nil : Restart x.tokens (x.place []) :=
  .atEnd (get_place List.nil_suffix) x.final_eq

theorem restart_cons_iff (h : dropped :: t :: after <:+ x.stream.ahead) :
    Restart x.tokens (x.place (t :: after))
      ↔ dropped.kind = .semicolon ∨ t.kind ∈ Reading.starters := by
  have hcons : t :: after <:+ x.stream.ahead := (List.suffix_cons dropped _).trans h
  have hget : x.tokens[x.place (t :: after)]? = some t := get_place hcons
  have hbefore : x.tokens[x.place (dropped :: t :: after)]? = some dropped := get_place h
  have hplace : x.place (t :: after) = x.place (dropped :: t :: after) + 1 := place_after h
  constructor
  · generalize hj : x.place (t :: after) = j at hget
    rintro (⟨hu, hk⟩ | ⟨hu, hk⟩ | ⟨hu, hk⟩)
    · obtain rfl := Option.some.inj (hget.symm.trans hu)
      exact absurd hk (x.ahead_ne t (hcons.subset List.mem_cons_self))
    · obtain rfl := Nat.succ.inj (hj.symm.trans hplace)
      obtain rfl := Option.some.inj (hbefore.symm.trans hu)
      exact .inl hk
    · obtain rfl := Option.some.inj (hget.symm.trans hu)
      exact .inr hk
  · rintro (hk | hk)
    · rw [hplace]
      exact .afterSemicolon hbefore hk
    · exact .starter hget hk

/-- Skipping stops at the first place that reading can go on from. -/
theorem isLeast_skip : ∀ (dropped : Token) (tokens : List Token),
    dropped :: tokens <:+ x.stream.ahead →
    IsLeast {j | x.place tokens ≤ j ∧ Restart x.tokens j} (x.place (Reading.skip dropped tokens))
  | dropped, [], _ => ⟨⟨Nat.le_refl _, restart_nil⟩, fun _ hj => hj.1⟩
  | dropped, t :: after, h => by
    have hcons : t :: after <:+ x.stream.ahead := (List.suffix_cons dropped _).trans h
    rw [Reading.skip]
    split
    · rename_i hstop
      exact ⟨⟨Nat.le_refl _, (restart_cons_iff h).2 hstop⟩, fun _ hj => hj.1⟩
    · rename_i hstop
      obtain ⟨⟨hle, hrestart⟩, hleast⟩ := isLeast_skip t after hcons
      rw [place_after hcons] at hle hleast
      refine ⟨⟨Nat.le_of_succ_le hle, hrestart⟩, fun j hj => hleast ⟨?_, hj.2⟩⟩
      -- The place before `t` is passed over, as it is none to go on from.
      refine Nat.lt_of_le_of_ne hj.1 fun heq => hstop ((restart_cons_iff h).1 ?_)
      rw [heq]
      exact hj.2

theorem isLeast_resume (h : site <:+ x.stream.ahead) :
    IsLeast {j | restartFrom x.tokens (x.place site) ≤ j ∧ Restart x.tokens j}
      (x.place (Reading.resume site)) := by
  have hget := get_place h
  cases site with
  | nil =>
    rw [restartFrom_of_mem hget (by rw [List.head?_nil, Option.getD_none, x.final_eq]; decide)]
    exact ⟨⟨Nat.le_refl _, restart_nil⟩, fun _ hj => hj.1⟩
  | cons t after =>
    rw [List.head?_cons, Option.getD_some] at hget
    have hend : t.kind ≠ .eof := x.ahead_ne t (h.subset List.mem_cons_self)
    rw [Reading.resume]
    split
    · rename_i hkeyword
      have hstarter : t.kind ∈ Reading.starters := by
        rcases hkeyword with hk | hk <;> rw [hk] <;> decide
      rw [restartFrom_of_mem hget (by simpa using .inr hkeyword)]
      exact ⟨⟨Nat.le_refl _, .starter hget hstarter⟩, fun _ hj => hj.1⟩
    · rename_i hkeyword
      rw [restartFrom_of_not_mem hget (by simpa [hend] using hkeyword), ← place_after h]
      exact isLeast_skip t after h

end Tape

/-- A statement that nothing is given for was given up at its last error. -/
theorem Stmt.attempt_of_parse {t : Token} {after : List Token} (h : (parse t after).value = none) :
    ∃ cause, (attempt t after).value = .error cause
      ∧ (parse t after).errors = (attempt t after).errors ++ [⟨cause, (attempt t after).rest⟩]
      ∧ (parse t after).rest = Reading.resume (attempt t after).rest := by
  have hpast := past_parse t after
  rcases hv : (attempt t after).value with cause | s
  · rw [Reading.recover_of_error hv] at hpast
    exact ⟨cause, rfl, congrArg (·.errors) hpast, congrArg (·.rest) hpast⟩
  · rw [Reading.recover_of_ok hv] at hpast
    cases h.symm.trans (congrArg (·.value) hpast)

namespace Walk

/-- A cursor before a statement that is given up stops at the error, and moves on from there without
another one. -/
theorem declaration_of_error {x : Tape} {t : Token} {after : List Token}
    {cause : SyntaxError.Cause} (herror : (Stmt.attempt t after).value = .error cause) {c : Cursor}
    (hc : c.Stands x (t :: after)) {depth : Nat} (hd : 13 * (t :: after).length + 13 < depth) :
    ∃ stopped resumed, attempt depth c = some (none, stopped)
      ∧ stopped.Stands x (Stmt.attempt t after).rest
      ∧ stopped.errors = c.errors
        ++ (Stmt.attempt t after).told.map (SyntaxError.located x.stream.final)
      ∧ declaration (depth + 1) c = some (none, resumed)
      ∧ resumed.Stands x (Reading.resume (Stmt.attempt t after).rest)
      ∧ resumed.errors = stopped.errors := by
  have hrest := (Stmt.attempt t after).suffix.length_le
  obtain ⟨stopped, hstopped, hstands, herrors, -⟩ := follows_attempt depth t after hd c hc
  rw [herror] at hstopped
  have hsettle : Goes x (settle depth none : Walk (Option Stmt)) (Stmt.attempt t after).rest none []
      (Reading.resume (Stmt.attempt t after).rest) :=
    (goes_synchronize depth _ (by omega)).bind (goes_pure none _)
  obtain ⟨resumed, hresumed, hstands', herrors', -⟩ := hsettle stopped hstands
  refine ⟨stopped, resumed, hstopped, hstands, herrors, ?_, hstands', ?_⟩
  · rw [declaration_succ]
    show (attempt depth c).bind (fun result => settle depth result.1 result.2) = _
    rw [hstopped]
    exact hresumed
  · rw [herrors']
    exact List.append_nil _

end Walk

namespace TokenStream

open Walk

/-- Of tokens with an end at their end, each statement before the first end that cannot be read is
given up at a place `i` with an error there, and reading goes on at the first place `j` that it can
go on from. So does a cursor: it stops at `i`, where it reports the error, and stands at `j` next
without another one. -/
theorem parse_resumes (front : List Token) {final : Token} (hfinal : final.kind = .eof) :
    let tokens := front ++ [final]
    ∃ s, ofList? tokens = some s ∧ ∀ start t after, s.ahead.drop start = t :: after →
      (Stmt.parse t after).value = none → ∃ i j errors cause, start ≤ i ∧ i ≤ s.ahead.length
        ∧ (Stmt.parse t after).errors = errors ++ [⟨cause, s.ahead.drop i⟩]
        ∧ (Stmt.parse t after).rest = s.ahead.drop j
        ∧ IsLeast {j | restartFrom tokens i ≤ j ∧ Restart tokens j} j
        ∧ ∀ c depth, c.tokens = tokens → c.place = start → depthFor tokens ≤ depth →
          ∃ stopped resumed, attempt depth c = some (none, stopped) ∧ stopped.place = i
            ∧ (∃ token ∈ tokens[i]?, stopped.errors
              = c.errors ++ errors.map (SyntaxError.located s.final) ++ [(cause, token)])
            ∧ declaration (depth + 1) c = some (none, resumed) ∧ resumed.place = j
            ∧ resumed.errors = stopped.errors := by
  obtain ⟨x, hx⟩ := Tape.exists_tokens_eq hfinal front
  rw [← hx]
  intro tokens
  refine ⟨x.stream, x.ofList?_tokens, fun start t after hstart hnone => ?_⟩
  have hahead : t :: after <:+ x.stream.ahead := hstart ▸ List.drop_suffix _ _
  have hlength := congrArg List.length hstart
  rw [List.length_drop, List.length_cons] at hlength
  obtain ⟨cause, herror, herrors, hrest⟩ := Stmt.attempt_of_parse hnone
  have hsite : (Stmt.attempt t after).rest <:+ x.stream.ahead :=
    (Stmt.attempt t after).suffix.trans hahead
  have hresume := (Reading.resume_suffix (Stmt.attempt t after).rest).trans hsite
  refine ⟨x.place (Stmt.attempt t after).rest,
    x.place (Reading.resume (Stmt.attempt t after).rest), (Stmt.attempt t after).errors, cause, ?_,
    Nat.sub_le _ _, ?_, ?_, Tape.isLeast_resume hsite, fun c depth htokens hplace hdepth => ?_⟩
  · have hle := (Stmt.attempt t after).suffix.length_le
    rw [List.length_cons] at hle
    rw [Tape.place]
    omega
  · rw [herrors, Tape.drop_place hsite]
  · rw [hrest, Tape.drop_place hresume]
  · have hstands : c.Stands x (t :: after) := ⟨htokens, hahead, by rw [List.length_cons]; omega⟩
    have hd : 13 * (t :: after).length + 13 < depth := by
      have hle : x.stream.ahead.length ≤ tokens.length :=
        x.findIdx_tokens ▸ List.findIdx_le_length
      rw [depthFor] at hdepth
      rw [List.length_cons]
      omega
    obtain ⟨stopped, resumed, hstopped, hat, htold, hresumed, hat', hquiet⟩ :=
      declaration_of_error herror hstands hd
    refine ⟨stopped, resumed, hstopped, Nat.eq_sub_of_add_eq hat.place,
      ⟨_, Tape.get_place hsite, ?_⟩, hresumed, Nat.eq_sub_of_add_eq hat'.place, hquiet⟩
    rw [htold, Reading.told_of_error herror, List.map_append, List.append_assoc]
    rfl

/-- The statement in the block is given up behind its `nil`, and reading goes on before `while`. -/
theorem parse_resumes_while :
    let opening : Token := ⟨.leftBrace, "\x7b", .nil, 1⟩
    let nothing : Token := ⟨.kwNil, "nil", .nil, 1⟩
    let closing : Token := ⟨.rightParen, ")", .nil, 1⟩
    let loop : Token := ⟨.kwWhile, "while", .nil, 1⟩
    let front := [opening, nothing, closing, nothing, loop]
    let tokens := front ++ [.atEnd 1]
    (Token.atEnd 1).kind = .eof ∧ front.drop 1 = nothing :: [closing, nothing, loop]
      ∧ (Stmt.parse nothing [closing, nothing, loop]).value = none
      ∧ IsLeast {j | restartFrom tokens 2 ≤ j ∧ Restart tokens j} 4
      ∧ ∃ stopped resumed, attempt 94 { tokens, place := 1 } = some (none, stopped)
        ∧ stopped.place = 2 ∧ stopped.errors = [(.semicolonAfterExpression, closing)]
        ∧ declaration 95 { tokens, place := 1 } = some (none, resumed) ∧ resumed.place = 4
        ∧ resumed.errors = stopped.errors := by
  intro opening nothing closing loop front tokens
  have hfinal : (Token.atEnd 1).kind = .eof := rfl
  have hnone : (Stmt.parse nothing [closing, nothing, loop]).value = none := by cbv
  have herror : (Stmt.parse nothing [closing, nothing, loop]).errors
      = [⟨.semicolonAfterExpression, [closing, nothing, loop]⟩] := by cbv
  have hloop : (Stmt.parse nothing [closing, nothing, loop]).rest = [loop] := by cbv
  obtain ⟨s, hs, hparse⟩ := parse_resumes front hfinal
  obtain rfl : (⟨front, .atEnd 1⟩ : TokenStream) = s := Option.some.inj hs
  obtain ⟨i, j, errors, cause, -, -, herrors, hrest, hleast, hcursor⟩ :=
    hparse 1 nothing [closing, nothing, loop] rfl hnone
  have happend : errors ++ [_] = [] ++ [_] := herrors.symm.trans herror
  obtain ⟨rfl, hlast⟩ := List.append_inj' happend rfl
  obtain ⟨rfl, hsite⟩ := SyntaxError.mk.inj (List.cons.inj hlast).1
  obtain rfl : i = 2 := by
    have hlength := congrArg List.length hsite
    rw [List.length_drop] at hlength
    change 5 - i = 3 at hlength
    omega
  obtain rfl : j = 4 := by
    have hlength := congrArg List.length (hrest.symm.trans hloop)
    rw [List.length_drop] at hlength
    change 5 - j = 1 at hlength
    omega
  obtain ⟨stopped, resumed, hstopped, hplace, ⟨token, htoken, herrors⟩, hresumed, hplace',
    hquiet⟩ := hcursor { tokens, place := 1 } 94 rfl rfl (Nat.le_refl _)
  obtain rfl : closing = token := Option.some.inj htoken
  exact ⟨hfinal, rfl, hnone, hleast, stopped, resumed, hstopped, hplace, herrors, hresumed, hplace',
    hquiet⟩

end TokenStream

end Scriptlet
