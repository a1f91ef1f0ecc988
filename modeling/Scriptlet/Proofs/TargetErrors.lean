import Scriptlet.Syntax.Statement

/-!
# Errors of assignment targets

Reading an expression reports nothing but assignment targets that are no names, each at its `=` and
each behind the errors of the value assigned (`SyntaxError.AtEquals`). There are fewer of them than
tokens read, as every expression has a token (`Expr.length_rest_parse`).
-/

namespace Scriptlet

namespace SyntaxError

variable {a b c : List Token} {errors errors' : List SyntaxError} {t : Token} {after : List Token}

/-- Errors of assignment targets on the way from `start` to `rest`, each at a `=` of its own. They
are fewer than the tokens on the way, unless there is none. -/
structure AtEquals (start : List Token) (errors : List SyntaxError) (rest : List Token) : Prop where
  suffix : rest <:+ start
  cause : ∀ e ∈ errors, e.cause = .assignmentTarget
  site : ∀ e ∈ errors, e.site <:+ start
    ∧ ∃ equals after, e.site = equals :: after ∧ equals.kind = .equal ∧ rest <:+ after
  once : errors.Pairwise fun e e' => e.site ≠ e'.site
  total : errors = [] ∧ rest = start ∨ errors.length + rest.length < start.length

namespace AtEquals

theorem length_site (h : AtEquals a errors b) : ∀ e ∈ errors, b.length < e.site.length := by
  intro e he
  obtain ⟨-, equals, after, hsite, -, hb⟩ := h.site e he
  rw [hsite]
  exact Nat.lt_succ_of_le hb.length_le

theorem site_ne (h : AtEquals a errors b) : ∀ e ∈ errors, e.site ≠ b := by
  intro e he heq
  have hlt := h.length_site e he
  rw [heq] at hlt
  exact Nat.lt_irrefl _ hlt

theorem within (h : AtEquals a errors b) : ∀ e ∈ errors, b <:+ e.site ∧ e.site <:+ a := by
  intro e he
  obtain ⟨hsite, equals, after, heq, -, hb⟩ := h.site e he
  exact ⟨heq ▸ hb.trans (List.suffix_cons equals after), hsite⟩

theorem nil (h : b <:+ a) : AtEquals a [] b where
  suffix := h
  cause := List.forall_mem_nil _
  site := List.forall_mem_nil _
  once := .nil
  total := by
    rcases Nat.eq_or_lt_of_le h.length_le with heq | hlt
    · exact .inl ⟨rfl, h.eq_of_length heq⟩
    · exact .inr (by rwa [List.length_nil, Nat.zero_add])

theorem append (h : AtEquals a errors b) (h' : AtEquals b errors' c) :
    AtEquals a (errors ++ errors') c where
  suffix := h'.suffix.trans h.suffix
  cause := List.forall_mem_append.2 ⟨h.cause, h'.cause⟩
  site := by
    refine List.forall_mem_append.2 ⟨fun e he => ?_, fun e he => ?_⟩
    · obtain ⟨hsite, equals, after, heq, hk, hb⟩ := h.site e he
      exact ⟨hsite, equals, after, heq, hk, h'.suffix.trans hb⟩
    · obtain ⟨hsite, hequals⟩ := h'.site e he
      exact ⟨hsite.trans h.suffix, hequals⟩
  once := by
    refine List.pairwise_append.2 ⟨h.once, h'.once, fun e he e' he' heq => ?_⟩
    -- The first error is before `b`, the second within it.
    have hlt := h.length_site e he
    have hle := (h'.site e' he').1.length_le
    rw [heq] at hlt
    exact Nat.not_lt.2 hle hlt
  total := by
    have hle := h'.suffix.length_le
    rw [List.length_append]
    rcases h.total with ⟨rfl, rfl⟩ | hlt
    · simpa using h'.total
    · have hle' : errors'.length + c.length ≤ b.length := by
        rcases h'.total with ⟨rfl, rfl⟩ | hlt'
        · exact Nat.le_of_eq (Nat.zero_add _)
        · exact Nat.le_of_lt hlt'
      exact .inr (by omega)

/-- A target that is no name is reported behind the errors of its value. -/
theorem assignment (h : AtEquals after errors b) (hlt : b.length < after.length)
    (ht : t.kind = .equal) :
    AtEquals (t :: after) (errors ++ [⟨.assignmentTarget, t :: after⟩]) b where
  suffix := h.suffix.trans (List.suffix_cons t after)
  cause := List.forall_mem_append.2 ⟨h.cause, List.forall_mem_singleton.2 rfl⟩
  site := by
    refine List.forall_mem_append.2 ⟨fun e he => ?_, List.forall_mem_singleton.2 ?_⟩
    · exact (h.site e he).imp_left fun hsite => hsite.trans (List.suffix_cons t after)
    · exact ⟨List.suffix_rfl, t, after, rfl, ht, h.suffix⟩
  once := by
    refine List.pairwise_append.2 ⟨h.once, List.pairwise_singleton _ _, fun e he e' he' heq => ?_⟩
    have hle := (h.site e he).1.length_le
    rw [heq, List.mem_singleton.1 he', List.length_cons] at hle
    exact Nat.not_succ_le_self _ hle
  total := by
    rw [List.length_append, List.length_singleton, List.length_cons]
    rcases h.total with ⟨rfl, rfl⟩ | hlt'
    · exact absurd hlt (Nat.lt_irrefl _)
    · exact .inr (by omega)

theorem ne_nil (h : AtEquals a errors b) (hne : b ≠ a) : a ≠ [] := by
  rintro rfl
  exact hne (List.suffix_nil.1 h.suffix)

end AtEquals

end SyntaxError

namespace Reading

variable {α β : Type} {tokens : List Token}

/-- The reading reports assignment targets only. -/
def AtEquals (r : Reading tokens α) : Prop :=
  SyntaxError.AtEquals tokens r.errors r.rest

theorem atEquals_of_errors {r : Reading tokens α} (h : r.errors = []) : r.AtEquals := by
  rw [AtEquals, h]
  exact .nil r.suffix

theorem atEquals_expect (kind : Kind) (cause : SyntaxError.Cause) (tokens : List Token) :
    (expect kind cause tokens).AtEquals := by
  refine atEquals_of_errors ?_
  cases tokens with
  | nil => rfl
  | cons t after =>
    rw [expect]
    split <;> rfl

theorem AtEquals.past {t : Token} {r : Reading tokens α} (h : r.AtEquals) :
    (r.past : Reading (t :: tokens) α).AtEquals :=
  (SyntaxError.AtEquals.nil (List.suffix_cons t tokens)).append h

theorem AtEquals.andThen {r : Attempt tokens α}
    {f : α → (rest : List Token) → rest <:+ tokens → Attempt rest β} (h : r.AtEquals)
    (hf : ∀ a rest (hs : rest <:+ tokens), (f a rest hs).AtEquals) : (r.andThen f).AtEquals := by
  rcases hr : r.value with cause | a
  · rw [andThen_of_error hr]
    exact h
  · rw [andThen_of_ok hr]
    exact SyntaxError.AtEquals.append h (hf a _ _)

/-- A part and one token more. -/
theorem AtEquals.andThen_expect {r : Attempt tokens α} {kind : Kind} {cause : SyntaxError.Cause}
    {f : α → β} (h : r.AtEquals) :
    (r.andThen fun a rest _ =>
      (expect kind cause rest).andThen fun _ _ _ => done (f a)).AtEquals :=
  h.andThen fun _ rest _ => (atEquals_expect kind cause rest).andThen fun _ _ _ =>
    atEquals_of_errors rfl

/-! ### Every expression has a token -/

theorem length_rest_past {t : Token} (r : Reading tokens α) :
    (r.past : Reading (t :: tokens) α).rest.length < (t :: tokens).length :=
  Nat.lt_succ_of_le r.suffix.length_le

theorem length_rest_andThen {r : Attempt tokens α}
    {f : α → (rest : List Token) → rest <:+ tokens → Attempt rest β} {b : β}
    (h : (r.andThen f).value = .ok b)
    (hr : ∀ a, r.value = .ok a → r.rest.length < tokens.length) :
    (r.andThen f).rest.length < tokens.length := by
  obtain ⟨a, ha, -⟩ := ok_of_andThen h
  rw [andThen_of_ok ha]
  exact Nat.lt_of_le_of_lt (f a r.rest r.suffix).suffix.length_le (hr a ha)

end Reading

namespace Expr

open Reading

theorem length_rest_parseOperand {tokens : List Token} {e : Expr}
    (h : (parseOperand tokens).value = .ok e) :
    (parseOperand tokens).rest.length < tokens.length := by
  cases tokens with
  | nil =>
    rw [parseOperand] at h
    cases h
  | cons t after =>
    rw [parseOperand] at h ⊢
    split at h
    case h_10 => cases h
    all_goals exact length_rest_past _

theorem length_rest_parseLevels {ops : List (List Kind)} {tokens : List Token} {e : Expr}
    (h : (parseLevels ops tokens).value = .ok e) :
    (parseLevels ops tokens).rest.length < tokens.length := by
  induction ops generalizing e with
  | nil =>
    rw [parseLevels] at h ⊢
    exact length_rest_parseOperand h
  | cons level tighter ih =>
    rw [parseLevels] at h ⊢
    exact length_rest_andThen h fun _ => ih

theorem length_rest_parse {tokens : List Token} {e : Expr} (h : (parse tokens).value = .ok e) :
    (parse tokens).rest.length < tokens.length := by
  rw [parse] at h ⊢
  exact length_rest_andThen h fun _ => length_rest_parseLevels

/-! ### Expressions -/

theorem atEquals_assignment {after : List Token} (h : (parse after).AtEquals) (target : Expr)
    {equals : Token} (hk : equals.kind = .equal) :
    (((parse after).andThen fun value _ _ => assignTo target equals after value).past :
      Reading (equals :: after) _).AtEquals := by
  rcases hv : (parse after).value with cause | value
  · rw [andThen_of_error hv]
    exact AtEquals.past h
  · have hlt := length_rest_parse hv
    rw [andThen_of_ok hv]
    cases target with
    | name x => exact AtEquals.past (SyntaxError.AtEquals.append h (.nil List.suffix_rfl))
    | _ => exact SyntaxError.AtEquals.assignment h hlt hk

mutual

theorem atEquals_parse (tokens : List Token) : (parse tokens).AtEquals := by
  rw [parse]
  refine (atEquals_parseLevels levels tokens).andThen fun target rest hs => ?_
  have hle := hs.length_le
  match rest, hs, hle with
  | [], _, _ => exact atEquals_of_errors rfl
  | equals :: after, _, hle =>
    simp only
    split
    · have hlt : after.length < tokens.length := hle
      exact atEquals_assignment (atEquals_parse after) target ‹_›
    · exact atEquals_of_errors rfl
termination_by (tokens.length, 2 * levels.length + 4)

theorem atEquals_parseLevels : ∀ (ops : List (List Kind)) (tokens : List Token),
    (parseLevels ops tokens).AtEquals
  | [], tokens => by
    rw [parseLevels]
    exact atEquals_parseOperand tokens
  | level :: tighter, tokens => by
    rw [parseLevels]
    refine (atEquals_parseLevels tighter tokens).andThen fun left rest hs => ?_
    have hle := hs.length_le
    exact atEquals_parseMore level tighter left rest
termination_by ops tokens => (tokens.length, 2 * ops.length + 1)
decreasing_by
  all_goals simp_wf
  all_goals simp [Prod.lex_def]
  all_goals omega

theorem atEquals_parseMore (level : List Kind) (tighter : List (List Kind)) :
    ∀ (left : Expr) (tokens : List Token), (parseMore level tighter left tokens).AtEquals
  | left, [] => by
    rw [parseMore]
    exact atEquals_of_errors rfl
  | left, operator :: after => by
    rw [parseMore]
    split
    · refine AtEquals.past ((atEquals_parseLevels tighter after).andThen fun right rest hs => ?_)
      have hlt : rest.length < (operator :: after).length := Nat.lt_succ_of_le hs.length_le
      exact atEquals_parseMore level tighter (.binary left operator right) rest
    · exact atEquals_of_errors rfl
termination_by _ tokens => (tokens.length, 2 * tighter.length + 2)

theorem atEquals_parseOperand : ∀ tokens : List Token, (parseOperand tokens).AtEquals
  | [] => by
    rw [parseOperand]
    exact atEquals_of_errors rfl
  | t :: after => by
    rw [parseOperand]
    split
    case h_1 | h_2 =>
      exact ((atEquals_parseOperand after).andThen fun _ _ _ => atEquals_of_errors rfl).past
    case h_9 => exact (atEquals_parse after).andThen_expect.past
    all_goals exact atEquals_of_errors rfl
termination_by tokens => (tokens.length, 0)

end

end Expr

namespace Stmt

open Reading

theorem atEquals_parseInitial (tokens : List Token) : (parseInitial tokens).AtEquals := by
  cases tokens with
  | nil => exact atEquals_of_errors rfl
  | cons equals after =>
    rw [parseInitial]
    split
    · exact ((Expr.atEquals_parse after).andThen fun _ _ _ => atEquals_of_errors rfl).past
    · exact atEquals_of_errors rfl

theorem atEquals_parseDeclaration (tokens : List Token) : (parseDeclaration tokens).AtEquals := by
  rw [parseDeclaration]
  refine (atEquals_expect _ _ tokens).andThen fun name rest _ => ?_
  exact (atEquals_parseInitial rest).andThen_expect

end Stmt

end Scriptlet
