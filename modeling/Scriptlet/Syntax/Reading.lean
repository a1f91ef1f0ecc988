import Scriptlet.Token.Basic

/-!
# Reading tokens

A reading of a list of tokens gives a value, the errors reported on the way, and the tokens that
follow what was read: a suffix of the list, so that readings of what follows end. A reading that
fails has stopped at the token where its error belongs.
-/

namespace Scriptlet

/-- What is wrong where reading stopped. -/
inductive SyntaxError.Cause where
  | expression
  | closingParen
  | closingBrace
  | variableName
  | semicolonAfterValue
  | semicolonAfterExpression
  | semicolonAfterDeclaration
  | endOfExpression
  | assignmentTarget
deriving DecidableEq

/-- An error with the tokens from its place on; none are left at the end of the source. -/
structure SyntaxError where
  cause : SyntaxError.Cause
  site : List Token
deriving DecidableEq

def SyntaxError.Cause.message : SyntaxError.Cause → String
  | expression => "Expect expression."
  | closingParen => "Expect ')' after expression."
  | closingBrace => "Expect '\x7d' after block."
  | variableName => "Expect variable name."
  | semicolonAfterValue => "Expect ';' after value."
  | semicolonAfterExpression => "Expect ';' after expression."
  | semicolonAfterDeclaration => "Expect ';' after variable declaration."
  | endOfExpression => "Expect end of expression."
  | assignmentTarget => "Invalid assignment target."

/-- What reading a front part of `tokens` gives. -/
structure Reading (tokens : List Token) (α : Type) where
  value : α
  errors : List SyntaxError
  rest : List Token
  suffix : rest <:+ tokens

/-- What reading gives that may fail. -/
abbrev Attempt (tokens : List Token) (α : Type) : Type :=
  Reading tokens (Except SyntaxError.Cause α)

namespace Reading

variable {α β : Type} {tokens : List Token}

def here (a : α) : Reading tokens α :=
  ⟨a, [], tokens, List.suffix_rfl⟩

/-- Reads nothing and succeeds. -/
def done (a : α) : Attempt tokens α :=
  here (.ok a)

/-- Fails at the first of the tokens. -/
def fail (cause : SyntaxError.Cause) : Attempt tokens α :=
  here (.error cause)

/-- The same reading after one more token. -/
def past {t : Token} (r : Reading tokens α) : Reading (t :: tokens) α :=
  ⟨r.value, r.errors, r.rest, r.suffix.trans (List.suffix_cons t tokens)⟩

/-- Goes on reading with what follows. -/
def bind (r : Reading tokens α) (f : α → (rest : List Token) → rest <:+ tokens → Reading rest β) :
    Reading tokens β :=
  let s := f r.value r.rest r.suffix
  ⟨s.value, r.errors ++ s.errors, s.rest, s.suffix.trans r.suffix⟩

/-- Goes on reading with what follows unless reading failed. -/
def andThen (r : Attempt tokens α)
    (f : α → (rest : List Token) → rest <:+ tokens → Attempt rest β) : Attempt tokens β :=
  r.bind fun
    | .ok a, rest, h => f a rest h
    | .error cause, _, _ => fail cause

/-- Reads one token of a kind, or fails with a cause. -/
def expect (kind : Kind) (cause : SyntaxError.Cause) : (tokens : List Token) → Attempt tokens Token
  | [] => fail cause
  | t :: _ => if t.kind = kind then (done t).past else fail cause

@[simp] theorem value_here (a : α) : (here a : Reading tokens α).value = a := rfl

@[simp] theorem errors_here (a : α) : (here a : Reading tokens α).errors = [] := rfl

@[simp] theorem rest_here (a : α) : (here a : Reading tokens α).rest = tokens := rfl

@[simp] theorem value_past {t : Token} (r : Reading tokens α) :
    (r.past : Reading (t :: tokens) α).value = r.value := rfl

@[simp] theorem errors_past {t : Token} (r : Reading tokens α) :
    (r.past : Reading (t :: tokens) α).errors = r.errors := rfl

@[simp] theorem rest_past {t : Token} (r : Reading tokens α) :
    (r.past : Reading (t :: tokens) α).rest = r.rest := rfl

theorem andThen_of_ok {r : Attempt tokens α} {a : α} (h : r.value = .ok a)
    (f : α → (rest : List Token) → rest <:+ tokens → Attempt rest β) :
    r.andThen f = r.bind fun _ rest hr => f a rest hr := by
  simp only [andThen, bind, h]

theorem andThen_of_error {r : Attempt tokens α} {cause : SyntaxError.Cause}
    (h : r.value = .error cause)
    (f : α → (rest : List Token) → rest <:+ tokens → Attempt rest β) :
    r.andThen f = ⟨.error cause, r.errors, r.rest, r.suffix⟩ := by
  simp [andThen, bind, h, fail]

/-- What succeeds after a part goes on from a success of that part. -/
theorem ok_of_andThen {r : Attempt tokens α}
    {f : α → (rest : List Token) → rest <:+ tokens → Attempt rest β} {b : β}
    (h : (r.andThen f).value = .ok b) :
    ∃ a, r.value = .ok a ∧ (f a r.rest r.suffix).value = .ok b := by
  rcases hr : r.value with cause | a
  · rw [andThen_of_error hr] at h
    cases h
  · rw [andThen_of_ok hr] at h
    exact ⟨a, rfl, h⟩

/-- A token that was expected and found is read. -/
theorem length_rest_expect {kind : Kind} {cause : SyntaxError.Cause} {t : Token}
    (h : (expect kind cause tokens).value = .ok t) :
    (expect kind cause tokens).rest.length < tokens.length := by
  cases tokens with
  | nil => simp [expect, fail] at h
  | cons u us =>
    by_cases hk : u.kind = kind
    · simp [expect, hk, done]
    · simp [expect, hk, fail] at h

end Reading

end Scriptlet
