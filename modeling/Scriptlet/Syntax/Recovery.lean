import Scriptlet.Syntax.Reading

/-!
# Recovery after an error

A statement that cannot be read is left out, and reading goes on at the next place that looks like
the front of a statement (`Reading.resume`): after a semicolon, or at a word that starts a
statement.
-/

namespace Scriptlet

namespace Reading

variable {α : Type} {tokens : List Token}

/-- The words that start statements, also those that no statement starts with yet. -/
def starters : List Kind :=
  [.kwClass, .kwFun, .kwVar, .kwFor, .kwIf, .kwWhile, .kwPrint, .kwReturn]

/-- Where reading goes on once `dropped` is dropped: after a semicolon or at a starter. -/
def skip (dropped : Token) : List Token → List Token
  | [] => []
  | t :: after =>
    if dropped.kind = .semicolon ∨ t.kind ∈ starters then t :: after else skip t after

/-- Where reading goes on after an error. The token at the error is dropped, unless it starts a
`var` or `print` statement. -/
def resume : List Token → List Token
  | [] => []
  | t :: after => if t.kind = .kwVar ∨ t.kind = .kwPrint then t :: after else skip t after

theorem skip_suffix : ∀ (dropped : Token) (tokens : List Token), skip dropped tokens <:+ tokens
  | _, [] => List.suffix_rfl
  | dropped, t :: after => by
    unfold skip
    split
    · exact List.suffix_rfl
    · exact (skip_suffix t after).trans (List.suffix_cons t after)

theorem resume_cons_suffix {t : Token} {after : List Token} (hv : t.kind ≠ .kwVar)
    (hp : t.kind ≠ .kwPrint) : resume (t :: after) <:+ after := by
  simpa [resume, hv, hp] using skip_suffix t after

theorem resume_suffix (tokens : List Token) : resume tokens <:+ tokens := by
  cases tokens with
  | nil => exact List.suffix_rfl
  | cons t after =>
    by_cases h : t.kind = .kwVar ∨ t.kind = .kwPrint
    · simp [resume, h]
    · simpa [resume, h] using (skip_suffix t after).trans (List.suffix_cons t after)

/-- Reports a failure and resumes; what failed gives nothing. -/
def recover (r : Attempt tokens α) : Reading tokens (Option α) :=
  match r.value with
  | .ok a => ⟨some a, r.errors, r.rest, r.suffix⟩
  | .error cause =>
    ⟨none, r.errors ++ [⟨cause, r.rest⟩], resume r.rest, (resume_suffix r.rest).trans r.suffix⟩

theorem recover_of_ok {r : Attempt tokens α} {a : α} (h : r.value = .ok a) :
    r.recover = ⟨some a, r.errors, r.rest, r.suffix⟩ := by
  simp only [recover, h]

theorem recover_of_error {r : Attempt tokens α} {cause : SyntaxError.Cause}
    (h : r.value = .error cause) :
    r.recover = ⟨none, r.errors ++ [⟨cause, r.rest⟩], resume r.rest,
      (resume_suffix r.rest).trans r.suffix⟩ := by
  simp only [recover, h]

end Reading

end Scriptlet
