import Scriptlet.Syntax.Statement

/-!
# Readings without errors

A reading gives a value and leaves a rest when it reports nothing (`Reading.Gives`). Each reader of
expressions and statements is described by what it gives: a reading of several parts gives what its
parts give one after the other, and a recovered reading gives nothing without a report.
-/

namespace Scriptlet

namespace Reading

variable {α β : Type} {tokens : List Token}

/-- The reading has this value and this rest, and reports nothing. -/
def Gives (r : Reading tokens α) (a : α) (rest : List Token) : Prop :=
  r.value = a ∧ r.errors = [] ∧ r.rest = rest

theorem Gives.unique {r : Reading tokens α} {a a' : α} {rest rest' : List Token}
    (h : r.Gives a rest) (h' : r.Gives a' rest') : a = a' ∧ rest = rest' :=
  ⟨h.1.symm.trans h'.1, h.2.2.symm.trans h'.2.2⟩

theorem gives_here {a b : α} {rest : List Token} :
    (here a : Reading tokens α).Gives b rest ↔ a = b ∧ tokens = rest := by
  simp [Gives]

theorem gives_done {a b : α} {rest : List Token} :
    (done a : Attempt tokens α).Gives (.ok b) rest ↔ a = b ∧ tokens = rest := by
  simp [done, gives_here]

theorem not_gives_fail {cause : SyntaxError.Cause} {b : α} {rest : List Token} :
    ¬ (fail cause : Attempt tokens α).Gives (.ok b) rest := by
  simp [fail, gives_here]

theorem gives_past {t : Token} {r : Reading tokens α} {a : α} {rest : List Token} :
    (r.past : Reading (t :: tokens) α).Gives a rest ↔ r.Gives a rest :=
  Iff.rfl

theorem gives_bind {r : Reading tokens α}
    {f : α → (rest : List Token) → rest <:+ tokens → Reading rest β} {b : β} {rest : List Token} :
    (r.bind f).Gives b rest
      ↔ ∃ a mid, ∃ h : mid <:+ tokens, r.Gives a mid ∧ (f a mid h).Gives b rest := by
  constructor
  · rintro ⟨hv, he, hr⟩
    obtain ⟨he1, he2⟩ := List.append_eq_nil_iff.1 he
    exact ⟨r.value, r.rest, r.suffix, ⟨rfl, he1, rfl⟩, hv, he2, hr⟩
  · rintro ⟨a, mid, h, ⟨rfl, he1, rfl⟩, hv, he2, hr⟩
    exact ⟨hv, List.append_eq_nil_iff.2 ⟨he1, he2⟩, hr⟩

theorem gives_andThen {r : Attempt tokens α}
    {f : α → (rest : List Token) → rest <:+ tokens → Attempt rest β} {b : β}
    {rest : List Token} :
    (r.andThen f).Gives (.ok b) rest
      ↔ ∃ a mid, ∃ h : mid <:+ tokens, r.Gives (.ok a) mid ∧ (f a mid h).Gives (.ok b) rest := by
  unfold andThen
  rw [gives_bind]
  constructor
  · rintro ⟨a, mid, h, hr, hf⟩
    cases a with
    | error cause => exact absurd hf not_gives_fail
    | ok a => exact ⟨a, mid, h, hr, hf⟩
  · rintro ⟨a, mid, h, hr, hf⟩
    exact ⟨.ok a, mid, h, hr, hf⟩

theorem gives_expect {kind : Kind} {cause : SyntaxError.Cause} {t : Token} {rest : List Token} :
    (expect kind cause tokens).Gives (.ok t) rest ↔ tokens = t :: rest ∧ t.kind = kind := by
  cases tokens with
  | nil => simp [expect, not_gives_fail]
  | cons u us =>
    simp only [expect]
    split
    · rename_i hk
      rw [gives_past, gives_done, List.cons.injEq]
      constructor
      · rintro ⟨rfl, rfl⟩
        exact ⟨⟨rfl, rfl⟩, hk⟩
      · rintro ⟨h, -⟩
        exact h
    · rename_i hk
      constructor
      · exact fun h => absurd h not_gives_fail
      · rintro ⟨h, hk'⟩
        obtain ⟨rfl, -⟩ := List.cons.inj h
        exact absurd hk' hk

/-- A part and one token more. -/
theorem gives_andThen_expect {r : Attempt tokens α} {kind : Kind} {cause : SyntaxError.Cause}
    {f : α → β} {b : β} {rest : List Token} :
    (r.andThen fun a rest _ => (expect kind cause rest).andThen fun _ _ _ => done (f a)).Gives
        (.ok b) rest
      ↔ ∃ a t, r.Gives (.ok a) (t :: rest) ∧ t.kind = kind ∧ b = f a := by
  rw [gives_andThen]
  constructor
  · rintro ⟨a, mid, -, hr, hf⟩
    obtain ⟨t, mid', -, ht, hd⟩ := gives_andThen.1 hf
    obtain ⟨rfl, hk⟩ := gives_expect.1 ht
    obtain ⟨rfl, rfl⟩ := gives_done.1 hd
    exact ⟨a, t, hr, hk, rfl⟩
  · rintro ⟨a, t, hr, hk, rfl⟩
    exact ⟨a, t :: rest, hr.2.2 ▸ r.suffix, hr, gives_andThen.2
      ⟨t, rest, List.suffix_cons t rest, gives_expect.2 ⟨rfl, hk⟩, gives_done.2 ⟨rfl, rfl⟩⟩⟩

/-- A part whose value is worked on. -/
theorem gives_andThen_done {r : Attempt tokens α} {f : α → β} {b : β} {rest : List Token} :
    (r.andThen fun a _ _ => done (f a)).Gives (.ok b) rest
      ↔ ∃ a, r.Gives (.ok a) rest ∧ b = f a := by
  rw [gives_andThen]
  constructor
  · rintro ⟨a, mid, -, hr, hd⟩
    obtain ⟨rfl, rfl⟩ := gives_done.1 hd
    exact ⟨a, hr, rfl⟩
  · rintro ⟨a, hr, rfl⟩
    exact ⟨a, rest, hr.2.2 ▸ r.suffix, hr, gives_done.2 ⟨rfl, rfl⟩⟩

/-- A failure is reported, so a recovered reading that reports nothing has not failed. -/
theorem gives_recover {r : Attempt tokens α} {o : Option α} {rest : List Token} :
    r.recover.Gives o rest ↔ ∃ a, o = some a ∧ r.Gives (.ok a) rest := by
  rcases h : r.value with cause | a
  · rw [recover_of_error h]
    constructor
    · rintro ⟨-, he, -⟩
      simp at he
    · rintro ⟨a, -, hv, -⟩
      rw [h] at hv
      cases hv
  · rw [recover_of_ok h]
    constructor
    · rintro ⟨rfl, he, hr⟩
      exact ⟨a, rfl, h, he, hr⟩
    · rintro ⟨b, rfl, hv, he, hr⟩
      rw [h] at hv
      cases hv
      exact ⟨rfl, he, hr⟩

end Reading

namespace Expr

open Reading

theorem gives_assignTo {target e value : Expr} {equals : Token} {after tokens rest : List Token} :
    (assignTo target equals after value : Attempt tokens Expr).Gives (.ok e) rest
      ↔ ∃ t, target = .name t ∧ e = .assign t value ∧ tokens = rest := by
  cases target with
  | name t => simp [assignTo, gives_done, eq_comm]
  | _ => simp [assignTo, Gives]

theorem gives_parse {tokens : List Token} {e : Expr} {rest : List Token} :
    (parse tokens).Gives (.ok e) rest
      ↔ ((parseLevels levels tokens).Gives (.ok e) rest ∧ ∀ t ∈ rest.head?, t.kind ≠ .equal)
        ∨ ∃ target equals after value,
          (parseLevels levels tokens).Gives (.ok (.name target)) (equals :: after)
          ∧ equals.kind = .equal ∧ (parse after).Gives (.ok value) rest
          ∧ e = .assign target value := by
  rw [parse, gives_andThen]
  constructor
  · rintro ⟨target, mid, _, ht, hf⟩
    cases mid with
    | nil =>
      obtain ⟨rfl, rfl⟩ := gives_done.1 hf
      exact .inl ⟨ht, by simp⟩
    | cons equals after =>
      simp only at hf
      split at hf
      · rename_i hk
        rw [gives_past, gives_andThen] at hf
        obtain ⟨value, mid, _, hv, ha⟩ := hf
        obtain ⟨t, rfl, rfl, rfl⟩ := gives_assignTo.1 ha
        exact .inr ⟨t, equals, after, value, ht, hk, hv, rfl⟩
      · rename_i hk
        obtain ⟨rfl, rfl⟩ := gives_done.1 hf
        exact .inl ⟨ht, by simpa using hk⟩
  · rintro (⟨ht, hr⟩ | ⟨target, equals, after, value, ht, hk, hv, rfl⟩)
    · refine ⟨e, rest, ht.2.2 ▸ (parseLevels levels tokens).suffix, ht, ?_⟩
      cases rest with
      | nil => exact gives_done.2 ⟨rfl, rfl⟩
      | cons t after =>
        have hk : t.kind ≠ .equal := hr t (by simp)
        simp only [hk, if_false]
        exact gives_done.2 ⟨rfl, rfl⟩
    · refine ⟨.name target, equals :: after, ht.2.2 ▸ (parseLevels levels tokens).suffix, ht, ?_⟩
      simp only [hk, if_true]
      rw [gives_past, gives_andThen]
      exact ⟨value, rest, hv.2.2 ▸ (parse after).suffix, hv, gives_assignTo.2 ⟨_, rfl, rfl, rfl⟩⟩

theorem gives_parseLevels_cons {level : List Kind} {tighter : List (List Kind)}
    {tokens : List Token} {e : Expr} {rest : List Token} :
    (parseLevels (level :: tighter) tokens).Gives (.ok e) rest
      ↔ ∃ left mid, (parseLevels tighter tokens).Gives (.ok left) mid
        ∧ (parseMore level tighter left mid).Gives (.ok e) rest := by
  rw [parseLevels, gives_andThen]
  constructor
  · rintro ⟨left, mid, _, hl, hf⟩
    exact ⟨left, mid, hl, hf⟩
  · rintro ⟨left, mid, hl, hf⟩
    exact ⟨left, mid, hl.2.2 ▸ (parseLevels tighter tokens).suffix, hl, hf⟩

theorem gives_parseMore {level : List Kind} {tighter : List (List Kind)} {left : Expr}
    {tokens : List Token} {e : Expr} {rest : List Token} :
    (parseMore level tighter left tokens).Gives (.ok e) rest
      ↔ ((∀ t ∈ tokens.head?, t.kind ∉ level) ∧ left = e ∧ tokens = rest)
        ∨ ∃ operator after right mid, tokens = operator :: after ∧ operator.kind ∈ level
          ∧ (parseLevels tighter after).Gives (.ok right) mid
          ∧ (parseMore level tighter (.binary left operator right) mid).Gives (.ok e) rest := by
  cases tokens with
  | nil =>
    rw [parseMore]
    simp [gives_done]
  | cons operator after =>
    rw [parseMore]
    split
    · rename_i hk
      rw [gives_past, gives_andThen]
      constructor
      · rintro ⟨right, mid, _, hr, hf⟩
        exact .inr ⟨operator, after, right, mid, rfl, hk, hr, hf⟩
      · rintro (⟨hn, -⟩ | ⟨o, a, right, mid, ho, -, hr, hf⟩)
        · exact absurd hk (hn operator (by simp))
        · obtain ⟨rfl, rfl⟩ := List.cons.inj ho
          exact ⟨right, mid, hr.2.2 ▸ (parseLevels tighter after).suffix, hr, hf⟩
    · rename_i hk
      rw [gives_done]
      constructor
      · rintro ⟨rfl, rfl⟩
        exact .inl ⟨by simpa using hk, rfl, rfl⟩
      · rintro (⟨-, rfl, rfl⟩ | ⟨o, a, right, mid, ho, hk', -⟩)
        · exact ⟨rfl, rfl⟩
        · obtain ⟨rfl, rfl⟩ := List.cons.inj ho
          exact absurd hk' hk

/-- The value of a token that stands for one. -/
def constant? (t : Token) : Option Value :=
  match t.kind with
  | .kwTrue => some (.bool true)
  | .kwFalse => some (.bool false)
  | .kwNil => some .nil
  | .number | .string => some t.literal
  | _ => none

theorem gives_parseOperand {t : Token} {after : List Token} {e : Expr} {rest : List Token} :
    (parseOperand (t :: after)).Gives (.ok e) rest
      ↔ (t.kind ∈ [.bang, .minus]
          ∧ ∃ right, (parseOperand after).Gives (.ok right) rest ∧ e = .unary t right)
        ∨ (∃ value, constant? t = some value ∧ e = .literal value ∧ after = rest)
        ∨ (t.kind = .identifier ∧ e = .name t ∧ after = rest)
        ∨ (t.kind = .leftParen ∧ ∃ inner closing,
          (parse after).Gives (.ok inner) (closing :: rest) ∧ closing.kind = .rightParen
          ∧ e = .group inner) := by
  rw [parseOperand]
  split
  case h_10 => simp_all [not_gives_fail, constant?]
  all_goals
    rename_i hk
    simp [gives_past, gives_andThen_done, gives_andThen_expect, gives_done, constant?, hk, eq_comm]

theorem not_gives_parseOperand_nil {e : Expr} {rest : List Token} :
    ¬ (parseOperand []).Gives (.ok e) rest := by
  rw [parseOperand]
  exact not_gives_fail

end Expr

namespace Stmt

open Reading

theorem gives_parseInitial {tokens : List Token} {initial : Option Expr} {rest : List Token} :
    (parseInitial tokens).Gives (.ok initial) rest
      ↔ ((∀ t ∈ tokens.head?, t.kind ≠ .equal) ∧ none = initial ∧ tokens = rest)
        ∨ ∃ equals after e, tokens = equals :: after ∧ equals.kind = .equal
          ∧ (Expr.parse after).Gives (.ok e) rest ∧ initial = some e := by
  cases tokens with
  | nil => simp [parseInitial, gives_done]
  | cons equals after =>
    rw [parseInitial]
    split
    · rename_i hk
      rw [gives_past, gives_andThen_done]
      constructor
      · rintro ⟨e, he, rfl⟩
        exact .inr ⟨equals, after, e, rfl, hk, he, rfl⟩
      · rintro (⟨hn, -⟩ | ⟨_, _, e, ht, -, he, rfl⟩)
        · exact absurd hk (hn equals (by simp))
        · obtain ⟨rfl, rfl⟩ := List.cons.inj ht
          exact ⟨e, he, rfl⟩
    · rename_i hk
      simp [gives_done, hk]

theorem gives_parseDeclaration {tokens : List Token} {s : Stmt} {rest : List Token} :
    (parseDeclaration tokens).Gives (.ok s) rest
      ↔ ∃ name after initial semicolon, tokens = name :: after ∧ name.kind = .identifier
        ∧ (parseInitial after).Gives (.ok initial) (semicolon :: rest)
        ∧ semicolon.kind = .semicolon ∧ s = .declare name initial := by
  rw [parseDeclaration, gives_andThen]
  constructor
  · rintro ⟨name, after, -, hn, hf⟩
    obtain ⟨rfl, hk⟩ := gives_expect.1 hn
    obtain ⟨initial, semicolon, hi, hs, rfl⟩ := gives_andThen_expect.1 hf
    exact ⟨name, after, initial, semicolon, rfl, hk, hi, hs, rfl⟩
  · rintro ⟨name, after, initial, semicolon, rfl, hk, hi, hs, rfl⟩
    exact ⟨name, after, List.suffix_cons name after, gives_expect.2 ⟨rfl, hk⟩,
      gives_andThen_expect.2 ⟨initial, semicolon, hi, hs, rfl⟩⟩

theorem gives_parsePrint {tokens : List Token} {s : Stmt} {rest : List Token} :
    (parsePrint tokens).Gives (.ok s) rest
      ↔ ∃ e semicolon, (Expr.parse tokens).Gives (.ok e) (semicolon :: rest)
        ∧ semicolon.kind = .semicolon ∧ s = .print e := by
  rw [parsePrint, gives_andThen_expect]

theorem gives_parseExpression {tokens : List Token} {s : Stmt} {rest : List Token} :
    (parseExpression tokens).Gives (.ok s) rest
      ↔ ∃ e semicolon, (Expr.parse tokens).Gives (.ok e) (semicolon :: rest)
        ∧ semicolon.kind = .semicolon ∧ s = .expression e := by
  rw [parseExpression, gives_andThen_expect]

/-- The kinds of the tokens that statements other than expressions start with. -/
def keywords : List Kind :=
  [.kwVar, .kwPrint, .leftBrace]

theorem gives_parse {t : Token} {after : List Token} {o : Option Stmt} {rest : List Token} :
    (parse t after).Gives o rest
      ↔ ∃ s, o = some s
        ∧ ((t.kind = .kwVar ∧ (parseDeclaration after).Gives (.ok s) rest)
          ∨ (t.kind = .kwPrint ∧ (parsePrint after).Gives (.ok s) rest)
          ∨ (t.kind = .leftBrace ∧ ∃ body, (parseBlock after).Gives (.ok body) rest
            ∧ s = .block body)
          ∨ (t.kind ∉ keywords ∧ (parseExpression (t :: after)).Gives (.ok s) rest)) := by
  rw [parse]
  split
  · rename_i hv
    rw [gives_recover]
    simp [hv, keywords]
  split
  · rename_i hp
    rw [gives_recover]
    simp [hp, keywords]
  split
  · rename_i hb
    rw [gives_recover]
    simp only [gives_andThen_done]
    simp [hb, keywords]
  · rename_i hv hp hb
    have hr : ∀ {r : Reading (t :: after) (Option Stmt)} {h : r.rest <:+ after},
        (⟨r.value, r.errors, r.rest, h⟩ : Reading after (Option Stmt)).Gives o rest
          ↔ r.Gives o rest := Iff.rfl
    simp only [hr, gives_recover]
    simp [hv, hp, hb, keywords]

theorem not_gives_parseBlock_nil {body : List Stmt} {rest : List Token} :
    ¬ (parseBlock []).Gives (.ok body) rest := by
  rw [parseBlock]
  exact not_gives_fail

theorem gives_parseBlock {t : Token} {after : List Token} {body : List Stmt}
    {rest : List Token} :
    (parseBlock (t :: after)).Gives (.ok body) rest
      ↔ (t.kind = .rightBrace ∧ [] = body ∧ after = rest)
        ∨ (t.kind ≠ .rightBrace ∧ ∃ s mid program,
          (parse t after).Gives (some s) mid ∧ (parseBlock mid).Gives (.ok program) rest
          ∧ body = s :: program) := by
  rw [parseBlock]
  split
  · rename_i hk
    simp [gives_past, gives_done, hk]
  · rename_i hk
    rw [gives_past, gives_bind]
    constructor
    · rintro ⟨o, mid, _, ho, hf⟩
      obtain ⟨s, rfl, -⟩ := gives_parse.1 ho
      obtain ⟨program, hp, rfl⟩ := gives_andThen_done.1 hf
      exact .inr ⟨hk, s, mid, program, ho, hp, rfl⟩
    · rintro (⟨hk', -⟩ | ⟨-, s, mid, program, hs, hp, rfl⟩)
      · exact absurd hk' hk
      · exact ⟨some s, mid, hs.2.2 ▸ (parse t after).suffix, hs,
          gives_andThen_done.2 ⟨program, hp, rfl⟩⟩

theorem gives_parseAll_nil {program : List Stmt} {rest : List Token} :
    (parseAll []).Gives program rest ↔ [] = program ∧ [] = rest := by
  rw [parseAll, gives_here]

/-- Once its first statement is read, the rest of a program is read as if it stood alone. -/
theorem parseAll_of_gives {t : Token} {after mid : List Token} {s : Stmt}
    (h : (parse t after).Gives (some s) mid) :
    (parseAll (t :: after)).value = s :: (parseAll mid).value
      ∧ (parseAll (t :: after)).errors = (parseAll mid).errors
      ∧ (parseAll (t :: after)).rest = (parseAll mid).rest := by
  obtain ⟨hv, he, rfl⟩ := h
  rw [parseAll]
  simp [Reading.bind, hv, he]

theorem gives_parseAll {t : Token} {after : List Token} {program : List Stmt}
    {rest : List Token} :
    (parseAll (t :: after)).Gives program rest
      ↔ ∃ s mid program', (parse t after).Gives (some s) mid
        ∧ (parseAll mid).Gives program' rest ∧ program = s :: program' := by
  rw [parseAll, gives_past, gives_bind]
  constructor
  · rintro ⟨o, mid, _, ho, hf⟩
    obtain ⟨s, rfl, -⟩ := gives_parse.1 ho
    obtain ⟨program', mid', _, hp, hd⟩ := gives_bind.1 hf
    obtain ⟨rfl, rfl⟩ := gives_here.1 hd
    exact ⟨s, mid, program', ho, hp, rfl⟩
  · rintro ⟨s, mid, program', hs, hp, rfl⟩
    exact ⟨some s, mid, hs.2.2 ▸ (parse t after).suffix, hs, gives_bind.2
      ⟨program', rest, hp.2.2 ▸ (parseAll mid).suffix, hp, gives_here.2 ⟨rfl, rfl⟩⟩⟩

end Stmt

end Scriptlet
