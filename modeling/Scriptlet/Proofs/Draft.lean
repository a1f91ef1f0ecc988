import Scriptlet.Proofs.GrammarComplete

/-!
# Drafts

A draft is a program with some of its simple sentences marked as typed without their semicolons. It
has the sentences that were meant, the tokens that were typed, and the trees of what is not marked.
A clause that no semicolon follows is read up to its end, and its error is there
(`Grammar.Clause.yields`).
-/

namespace Scriptlet

namespace Reading

variable {α β : Type} {tokens : List Token}

/-- The reading has this value, these errors and this rest. -/
def Yields (r : Reading tokens α) (a : α) (errors : List SyntaxError) (rest : List Token) : Prop :=
  r.value = a ∧ r.errors = errors ∧ r.rest = rest

theorem yields_self (r : Reading tokens α) : r.Yields r.value r.errors r.rest :=
  ⟨rfl, rfl, rfl⟩

theorem Gives.yields {r : Reading tokens α} {a : α} {rest : List Token} (h : r.Gives a rest) :
    r.Yields a [] rest :=
  h

theorem Yields.past {t : Token} {r : Reading tokens α} {a : α} {errors : List SyntaxError}
    {rest : List Token} (h : r.Yields a errors rest) :
    (r.past : Reading (t :: tokens) α).Yields a errors rest :=
  h

theorem Yields.bind {r : Reading tokens α}
    {f : α → (rest : List Token) → rest <:+ tokens → Reading rest β} {a : α} {b : β}
    {errors errors' : List SyntaxError} {mid rest : List Token} (h : r.Yields a errors mid)
    (hf : ∀ hs, (f a mid hs).Yields b errors' rest) :
    (r.bind f).Yields b (errors ++ errors') rest := by
  obtain ⟨value, _, _, hs⟩ := r
  obtain ⟨rfl, rfl, rfl⟩ := h
  obtain ⟨hv, he, hr⟩ := hf hs
  exact ⟨hv, by rw [Reading.bind, he], hr⟩

/-- After what is read without errors, the rest of a reading is all there is to it. -/
theorem Yields.andThen {r : Attempt tokens α}
    {f : α → (rest : List Token) → rest <:+ tokens → Attempt rest β} {a : α}
    {b : Except SyntaxError.Cause β} {errors : List SyntaxError} {mid rest : List Token}
    (h : r.Gives (.ok a) mid) (hf : ∀ hs, (f a mid hs).Yields b errors rest) :
    (r.andThen f).Yields b errors rest :=
  h.yields.bind hf

theorem yields_fail {cause : SyntaxError.Cause} :
    (fail cause : Attempt tokens α).Yields (.error cause) [] tokens :=
  ⟨rfl, rfl, rfl⟩

theorem yields_expect {kind : Kind} {cause : SyntaxError.Cause}
    (h : ∀ t ∈ tokens.head?, t.kind ≠ kind) :
    (expect kind cause tokens).Yields (.error cause) [] tokens := by
  cases tokens with
  | nil => exact yields_fail
  | cons t after =>
    have hk : t.kind ≠ kind := h t rfl
    rw [expect, if_neg hk]
    exact yields_fail

theorem Yields.recover {r : Attempt tokens α} {cause : SyntaxError.Cause}
    {errors : List SyntaxError} {rest : List Token} (h : r.Yields (.error cause) errors rest) :
    r.recover.Yields none (errors ++ [⟨cause, rest⟩]) (resume rest) := by
  obtain ⟨_, _, _, _⟩ := r
  obtain ⟨rfl, rfl, rfl⟩ := h
  exact ⟨rfl, rfl, rfl⟩

theorem Yields.recover_ok {r : Attempt tokens α} {a : α} {errors : List SyntaxError}
    {rest : List Token} (h : r.Yields (.ok a) errors rest) :
    r.recover.Yields (some a) errors rest := by
  obtain ⟨_, _, _, _⟩ := r
  obtain ⟨rfl, rfl, rfl⟩ := h
  exact ⟨rfl, rfl, rfl⟩

theorem Yields.andThen_done {r : Attempt tokens α} {f : α → β}
    {value : Except SyntaxError.Cause α} {errors : List SyntaxError} {rest : List Token}
    (h : r.Yields value errors rest) :
    (r.andThen fun a _ _ => done (f a)).Yields (value.map f) errors rest := by
  rw [← List.append_nil errors]
  refine h.bind fun hs => ?_
  cases value with
  | error cause => exact yields_fail
  | ok a => exact ⟨rfl, rfl, rfl⟩

/-- A part that is followed by a token of another kind than was expected. -/
theorem yields_andThen_expect {r : Attempt tokens α} {a : α} {kind : Kind}
    {cause : SyntaxError.Cause} {f : α → (rest : List Token) → rest <:+ tokens → Token →
      (rest' : List Token) → rest' <:+ rest → Attempt rest' β} {rest : List Token}
    (h : r.Gives (.ok a) rest) (hrest : ∀ t ∈ rest.head?, t.kind ≠ kind) :
    (r.andThen fun a rest hs => (expect kind cause rest).andThen (f a rest hs)).Yields
      (.error cause) [] rest := by
  refine Yields.andThen h fun hs => ?_
  have hexpect : (expect kind cause rest).Yields (.error cause) [] rest := yields_expect hrest
  rw [andThen_of_error hexpect.1]
  exact ⟨rfl, hexpect.2.1, hexpect.2.2⟩

end Reading

namespace Stmt

open Reading

variable {t : Token} {after mid rest : List Token} {s? : Option Stmt}
  {errors errors' : List SyntaxError}

/-- One statement of a block, and what is read after it. -/
theorem yields_parseBlock {value : Except SyntaxError.Cause (List Stmt)}
    (ht : t.kind ≠ .rightBrace) (hs : (parse t after).Yields s? errors mid)
    (h : (parseBlock mid).Yields value errors' rest) :
    (parseBlock (t :: after)).Yields (value.map (s?.toList ++ ·)) (errors ++ errors') rest := by
  rw [parseBlock, if_neg ht]
  refine Yields.past (hs.bind fun _ => ?_)
  exact h.andThen_done

theorem yields_parseAll {program : List Stmt} (hs : (parse t after).Yields s? errors mid)
    (h : (parseAll mid).Yields program errors' rest) :
    (parseAll (t :: after)).Yields (s?.toList ++ program) (errors ++ errors') rest := by
  rw [parseAll]
  refine Yields.past (hs.bind fun _ => ?_)
  rw [← List.append_nil errors']
  exact h.bind fun _ => ⟨rfl, rfl, rfl⟩

end Stmt

namespace Grammar

open Reading

/-- A simple sentence up to its semicolon. -/
inductive Clause where
  | declare (keyword : Terminal [.kwVar]) (name : Terminal [.identifier])
      (initial : Option (Terminal [.equal] × Phrase .expression))
  | print (keyword : Terminal [.kwPrint]) (e : Phrase .expression)
  | expression (e : Phrase .expression)

namespace Clause

/-- The sentence that a semicolon makes of the clause. -/
def close (semicolon : Terminal [.semicolon]) : Clause → Sentence
  | declare keyword name initial => .declare keyword name initial semicolon
  | print keyword e => .print keyword e semicolon
  | expression e => .expression e semicolon

def tokens : Clause → List Token
  | declare keyword name initial =>
    keyword.token :: name.token :: Sentence.initialTokens initial
  | print keyword e => keyword.token :: e.tokens
  | expression e => e.tokens

/-- What is wrong if no semicolon follows. -/
def cause : Clause → SyntaxError.Cause
  | declare _ _ _ => .semicolonAfterDeclaration
  | print _ _ => .semicolonAfterValue
  | expression _ => .semicolonAfterExpression

theorem tokens_close (semicolon : Terminal [.semicolon]) (c : Clause) :
    (c.close semicolon).tokens = c.tokens ++ [semicolon.token] := by
  cases c <;> rfl

/-- A clause before tokens that do not go on with it and start with no semicolon. -/
theorem yields (c : Clause) {rest : List Token} (hends : Ends rest)
    (hrest : ∀ t ∈ rest.head?, t.kind ≠ .semicolon) :
    ∃ t after, c.tokens ++ rest = t :: after ∧ t.kind ≠ .rightBrace
      ∧ (Stmt.parse t after).Yields none [⟨c.cause, rest⟩] (resume rest) := by
  cases c with
  | declare keyword name initial =>
    refine ⟨keyword.token, _, rfl, by rw [keyword.kind_eq]; decide, ?_⟩
    have hfail : (Stmt.parseDeclaration
        (name.token :: (Sentence.initialTokens initial ++ rest))).Yields
        (.error .semicolonAfterDeclaration) [] rest := by
      refine Yields.andThen (gives_expect.2 ⟨rfl, name.kind_eq⟩) fun _ => ?_
      exact yields_andThen_expect (Sentence.gives_initial initial hends) hrest
    rw [Stmt.parse, dif_pos keyword.kind_eq]
    exact hfail.recover
  | print keyword e =>
    have hvar : keyword.token.kind ≠ .kwVar := by rw [keyword.kind_eq]; decide
    refine ⟨keyword.token, _, rfl, by rw [keyword.kind_eq]; decide, ?_⟩
    have hfail : (Stmt.parsePrint (e.tokens ++ rest)).Yields (.error .semicolonAfterValue) [] rest :=
      yields_andThen_expect (e.gives_expression hends) hrest
    rw [Stmt.parse, dif_neg hvar, dif_pos keyword.kind_eq]
    exact hfail.recover
  | expression e =>
    obtain ⟨t, after, ht, hk⟩ := e.exists_tokens_eq_cons
    have hkeyword := (by decide : ∀ k ∈ Phrase.starters, k ∉ Stmt.keywords) _ hk
    have hbrace := (by decide : ∀ k ∈ Phrase.starters, k ≠ .rightBrace) _ hk
    have happ : (expression e).tokens ++ rest = t :: (after ++ rest) := by
      rw [tokens, ht, List.cons_append]
    simp only [Stmt.keywords, List.mem_cons, List.not_mem_nil, or_false, not_or] at hkeyword
    refine ⟨t, after ++ rest, happ, hbrace, ?_⟩
    have hfail : (Stmt.parseExpression (e.tokens ++ rest)).Yields
        (.error .semicolonAfterExpression) [] rest :=
      yields_andThen_expect (e.gives_expression hends) hrest
    rw [← tokens, happ] at hfail
    rw [Stmt.parse, dif_neg hkeyword.1, dif_neg hkeyword.2.1, if_neg hkeyword.2.2]
    exact hfail.recover

end Clause

/-- A sentence as it was typed: each simple one is marked if it lacks its semicolon. -/
inductive Draft where
  | simple (c : Clause) (semicolon : Terminal [.semicolon]) (lacking : Bool)
  | block (opening : Terminal [.leftBrace]) (body : List Draft) (closing : Terminal [.rightBrace])

namespace Draft

mutual

/-- The sentence that was meant. -/
def meant : Draft → Sentence
  | simple c semicolon _ => c.close semicolon
  | block opening body closing => .block opening (meantAll body) closing

def meantAll : List Draft → List Sentence
  | [] => []
  | d :: ds => d.meant :: meantAll ds

end

mutual

/-- The tokens that were typed. -/
def tokens : Draft → List Token
  | simple c semicolon false => c.tokens ++ [semicolon.token]
  | simple c _ true => c.tokens
  | block opening body closing => opening.token :: (allTokens body ++ [closing.token])

def allTokens : List Draft → List Token
  | [] => []
  | d :: ds => d.tokens ++ allTokens ds

end

theorem allTokens_append : ∀ (ds ds' : List Draft),
    allTokens (ds ++ ds') = allTokens ds ++ allTokens ds'
  | [], _ => rfl
  | d :: ds, ds' => by
    rw [List.cons_append, allTokens, allTokens, allTokens_append ds ds', List.append_assoc]

mutual

/-- The tree of what was meant, less the sentences that lack their semicolons. -/
def kept? : Draft → Option Stmt
  | simple c semicolon false => some (c.close semicolon).tree
  | simple _ _ true => none
  | block _ body _ => some (.block (keptAll body))

def keptAll : List Draft → List Stmt
  | [] => []
  | d :: ds => d.kept?.toList ++ keptAll ds

end

mutual

/-- The number of semicolons that are lacking. -/
def gaps : Draft → Nat
  | simple _ _ lacking => lacking.toNat
  | block _ body _ => gapsAll body

def gapsAll : List Draft → Nat
  | [] => 0
  | d :: ds => d.gaps + gapsAll ds

end

mutual

/-- The errors of the semicolons that are lacking, each at the tokens that follow its clause, where
`rest` follows the draft. -/
def errors : Draft → List Token → List SyntaxError
  | simple _ _ false, _ => []
  | simple c _ true, rest => [⟨c.cause, rest⟩]
  | block _ body closing, rest => allErrors body (closing.token :: rest)

def allErrors : List Draft → List Token → List SyntaxError
  | [], _ => []
  | d :: ds, rest => d.errors (allTokens ds ++ rest) ++ allErrors ds rest

end

mutual

theorem length_errors : ∀ (d : Draft) (rest : List Token), (d.errors rest).length = d.gaps
  | simple _ _ false, _ => rfl
  | simple _ _ true, _ => rfl
  | block _ body closing, rest => length_allErrors body (closing.token :: rest)

theorem length_allErrors : ∀ (ds : List Draft) (rest : List Token),
    (allErrors ds rest).length = gapsAll ds
  | [], _ => rfl
  | d :: ds, rest => by
    rw [allErrors, gapsAll, List.length_append, length_errors d, length_allErrors ds]

end

theorem allErrors_of_gapsAll {ds : List Draft} (h : gapsAll ds = 0) (rest : List Token) :
    allErrors ds rest = [] :=
  List.length_eq_zero_iff.1 ((length_allErrors ds rest).trans h)

end Draft

end Grammar

end Scriptlet
