import Scriptlet.Interpreter.Operators
import Scriptlet.Proofs.Reference

/-!
# The rules leave no choice

The rules of operators hold of exactly what the interpreter's operators give
(`Reference.unary_iff`, `Reference.binary_iff`), so that they give one outcome for all values; and
by the rules an expression or a statement has at most one outcome (`Reference.Evaluates.unique`,
`Reference.ExecutesAll.unique`).
-/

namespace Scriptlet

/-- The fault as a failure. -/
def Fault.failure (f : Fault) : Reference.Failure :=
  ⟨f.token, f.message⟩

namespace Reference

/-- The outcome of an operator, with the words of its fault. -/
def outcomeOf (o : Token) (r : Except Fault.Cause Value) : Except String Value :=
  r.mapError fun cause => (Fault.mk o cause).message

theorem unary_of_not_mem {k : Kind} {v : Value} (h : k ∉ [.minus, .bang]) :
    Value.unary k v = .error .unknownUnary := by
  simp only [List.mem_cons, List.not_mem_nil, or_false, not_or] at h
  unfold Value.unary
  split
  · exact absurd rfl h.1
  · exact absurd rfl h.1
  · exact absurd rfl h.2
  · rfl

theorem unary_iff {o : Token} {v : Value} {r : Except String Value} :
    Unary o v r ↔ r = outcomeOf o (Value.unary o.kind v) := by
  constructor
  · intro h
    cases h with
    | minus x h => rw [h]; rfl
    | notNumber h hv =>
      rw [h]
      cases v with
      | number x => exact absurd ⟨x, rfl⟩ hv
      | _ => rfl
    | bang v h => rw [h]; rfl
    | unknown v h => rw [unary_of_not_mem h]; rfl
  · rintro rfl
    by_cases hm : o.kind = .minus
    · rw [hm]
      cases v with
      | number x => exact .minus x hm
      | _ => exact .notNumber hm (by rintro ⟨x, hx⟩; cases hx)
    by_cases hb : o.kind = .bang
    · rw [hb]
      exact .bang v hb
    · have hk : o.kind ∉ [.minus, .bang] := by simp [hm, hb]
      rw [unary_of_not_mem hk]
      exact .unknown v hk

theorem onNumbers_of_not {f : Float → Float → Except Fault.Cause Value} {v w : Value}
    (h : ¬ (IsNumber v ∧ IsNumber w)) : Value.onNumbers f v w = .error .notNumbers := by
  unfold Value.onNumbers
  split
  · exact absurd ⟨⟨_, rfl⟩, ⟨_, rfl⟩⟩ h
  · rfl

theorem add_of_not {v w : Value} (hn : ¬ (IsNumber v ∧ IsNumber w))
    (hs : ¬ (IsString v ∧ IsString w)) : Value.add v w = .error .notAddable := by
  unfold Value.add
  split
  · exact absurd ⟨⟨_, rfl⟩, ⟨_, rfl⟩⟩ hn
  · exact absurd ⟨⟨_, rfl⟩, ⟨_, rfl⟩⟩ hs
  · rfl

/-- The operators on numbers differ in their function only, but for the zero divisor. -/
theorem binary_of_onNumbers? {k : Kind} {f : Float → Float → Value} (h : onNumbers? k = some f) :
    Value.binary k = Value.onNumbers fun x y =>
      if k = .slash ∧ (y == 0) = true then .error .zeroDivisor else .ok (f x y) := by
  funext v w
  unfold onNumbers? at h
  split at h <;> cases h
  -- The slash alone looks at its divisor.
  case h_3 => simp only [Value.binary, true_and]; rfl
  all_goals rfl

theorem binary_of_not_mem {k : Kind} {v w : Value} (h : k ∉ [.plus, .equalEqual, .bangEqual])
    (hn : onNumbers? k = none) : Value.binary k v w = .error .unknownBinary := by
  simp only [List.mem_cons, List.not_mem_nil, or_false, not_or] at h
  unfold Value.binary
  split <;> simp_all [onNumbers?]

theorem Binary.eq_outcomeOf {o : Token} {v w : Value} {r : Except String Value}
    (h : Binary o v w r) : r = outcomeOf o (Value.binary o.kind v w) := by
  cases h with
  | add x y h => rw [h]; rfl
  | join s t h => rw [h]; rfl
  | notAddable h hn hs => rw [h, Value.binary, add_of_not hn hs]; rfl
  | numbers x y h hz =>
    rw [binary_of_onNumbers? h, Value.onNumbers, if_neg hz]
    rfl
  | zeroDivisor x y h hz =>
    rw [h, Value.binary, Value.onNumbers, Value.divide, if_pos hz]
    rfl
  | notNumbers h hn =>
    obtain ⟨f, hf⟩ := Option.isSome_iff_exists.1 h
    rw [binary_of_onNumbers? hf, onNumbers_of_not hn]
    rfl
  | equal v w h => rw [h]; rfl
  | notEqual v w h => rw [h]; rfl
  | unknown v w h hn => rw [binary_of_not_mem h hn]; rfl

theorem binary_add {o : Token} (h : o.kind = .plus) (v w : Value) :
    Binary o v w (outcomeOf o (Value.add v w)) := by
  by_cases hn : IsNumber v ∧ IsNumber w
  · obtain ⟨⟨x, rfl⟩, ⟨y, rfl⟩⟩ := hn
    exact .add x y h
  by_cases hs : IsString v ∧ IsString w
  · obtain ⟨⟨s, rfl⟩, ⟨t, rfl⟩⟩ := hs
    exact .join s t h
  · rw [add_of_not hn hs]
    exact .notAddable h hn hs

theorem binary_onNumbers {o : Token} {f : Float → Float → Value} (h : onNumbers? o.kind = some f)
    (v w : Value) : Binary o v w (outcomeOf o (Value.binary o.kind v w)) := by
  rw [binary_of_onNumbers? h]
  by_cases hn : IsNumber v ∧ IsNumber w
  · obtain ⟨⟨x, rfl⟩, ⟨y, rfl⟩⟩ := hn
    rw [Value.onNumbers]
    by_cases hz : o.kind = .slash ∧ (y == 0) = true
    · rw [if_pos hz]
      exact .zeroDivisor x y hz.1 hz.2
    · rw [if_neg hz]
      exact .numbers x y h hz
  · rw [onNumbers_of_not hn]
    exact .notNumbers (Option.isSome_iff_exists.2 ⟨f, h⟩) hn

theorem binary_iff {o : Token} {v w : Value} {r : Except String Value} :
    Binary o v w r ↔ r = outcomeOf o (Value.binary o.kind v w) := by
  refine ⟨Binary.eq_outcomeOf, ?_⟩
  rintro rfl
  by_cases hp : o.kind = .plus
  · rw [hp]
    exact binary_add hp v w
  by_cases he : o.kind = .equalEqual
  · rw [he]
    exact .equal v w he
  by_cases hne : o.kind = .bangEqual
  · rw [hne]
    exact .notEqual v w hne
  cases hf : onNumbers? o.kind with
  | none =>
    have hk : o.kind ∉ [.plus, .equalEqual, .bangEqual] := by simp [hp, he, hne]
    rw [binary_of_not_mem hk hf]
    exact .unknown v w hk hf
  | some f => exact binary_onNumbers hf v w

/-! ### At most one outcome -/

theorem Evaluates.unique {env env₁ env₂ : Env} {e : Expr} {r₁ r₂ : Except Failure Value}
    (h₁ : Evaluates env e r₁ env₁) (h₂ : Evaluates env e r₂ env₂) : r₁ = r₂ ∧ env₁ = env₂ := by
  induction h₁ generalizing r₂ env₂ with
  | literal v =>
    cases h₂
    exact ⟨rfl, rfl⟩
  | group h ih =>
    cases h₂ with
    | group h' => exact ih h'
  | name h =>
    cases h₂ with
    | name h' =>
      rw [h] at h'
      cases h'
      exact ⟨rfl, rfl⟩
    | undefinedName h' =>
      rw [h] at h'
      cases h'
  | undefinedName h =>
    cases h₂ with
    | name h' =>
      rw [h] at h'
      cases h'
    | undefinedName h' => exact ⟨rfl, rfl⟩
  | unary h ho ih =>
    cases h₂ with
    | unary h' ho' =>
      obtain ⟨hv, rfl⟩ := ih h'
      cases hv
      exact ⟨by rw [unary_iff.1 ho, unary_iff.1 ho'], rfl⟩
    | unaryFails h' => cases (ih h').1
  | unaryFails h ih =>
    cases h₂ with
    | unary h' ho' => cases (ih h').1
    | unaryFails h' => exact ih h'
  | binary hl hr ho ihl ihr =>
    cases h₂ with
    | binary hl' hr' ho' =>
      obtain ⟨hv, rfl⟩ := ihl hl'
      obtain ⟨hw, rfl⟩ := ihr hr'
      cases hv
      cases hw
      exact ⟨by rw [binary_iff.1 ho, binary_iff.1 ho'], rfl⟩
    | leftFails hl' => cases (ihl hl').1
    | rightFails hl' hr' =>
      obtain ⟨-, rfl⟩ := ihl hl'
      cases (ihr hr').1
  | leftFails hl ihl =>
    cases h₂ with
    | binary hl' => cases (ihl hl').1
    | leftFails hl' => exact ihl hl'
    | rightFails hl' => cases (ihl hl').1
  | rightFails hl hr ihl ihr =>
    cases h₂ with
    | binary hl' hr' =>
      obtain ⟨-, rfl⟩ := ihl hl'
      cases (ihr hr').1
    | leftFails hl' => cases (ihl hl').1
    | rightFails hl' hr' =>
      obtain ⟨-, rfl⟩ := ihl hl'
      exact ihr hr'
  | assign h ha ih =>
    cases h₂ with
    | assign h' ha' =>
      obtain ⟨hv, rfl⟩ := ih h'
      cases hv
      rw [ha] at ha'
      cases ha'
      exact ⟨rfl, rfl⟩
    | assignUndefined h' ha' =>
      obtain ⟨hv, rfl⟩ := ih h'
      cases hv
      rw [ha] at ha'
      cases ha'
    | assignFails h' => cases (ih h').1
  | assignUndefined h ha ih =>
    cases h₂ with
    | assign h' ha' =>
      obtain ⟨hv, rfl⟩ := ih h'
      cases hv
      rw [ha] at ha'
      cases ha'
    | assignUndefined h' => exact ⟨rfl, (ih h').2⟩
    | assignFails h' => cases (ih h').1
  | assignFails h ih =>
    cases h₂ with
    | assign h' => cases (ih h').1
    | assignUndefined h' => cases (ih h').1
    | assignFails h' => exact ih h'

mutual

theorem Executes.unique {env env₁ env₂ : Env} {f₁ f₂ : Option Failure}
    {printed₁ printed₂ : List String} : ∀ {stmt : Stmt},
    Executes env stmt f₁ printed₁ env₁ → Executes env stmt f₂ printed₂ env₂ →
    f₁ = f₂ ∧ printed₁ = printed₂ ∧ env₁ = env₂
  | _, .expression h, .expression h' => ⟨rfl, rfl, (h.unique h').2⟩
  | _, .expression h, .expressionFails h' => nomatch (h.unique h').1
  | _, .expressionFails h, .expression h' => nomatch (h.unique h').1
  | _, .expressionFails h, .expressionFails h' => by
    obtain ⟨hf, rfl⟩ := h.unique h'
    cases hf
    exact ⟨rfl, rfl, rfl⟩
  | _, .print h, .print h' => by
    obtain ⟨hv, rfl⟩ := h.unique h'
    cases hv
    exact ⟨rfl, rfl, rfl⟩
  | _, .print h, .printFails h' => nomatch (h.unique h').1
  | _, .printFails h, .print h' => nomatch (h.unique h').1
  | _, .printFails h, .printFails h' => by
    obtain ⟨hf, rfl⟩ := h.unique h'
    cases hf
    exact ⟨rfl, rfl, rfl⟩
  | _, .declareNil x, .declareNil _ => ⟨rfl, rfl, rfl⟩
  | _, .declare x h, .declare _ h' => by
    obtain ⟨hv, rfl⟩ := h.unique h'
    cases hv
    exact ⟨rfl, rfl, rfl⟩
  | _, .declare _ h, .declareFails _ h' => nomatch (h.unique h').1
  | _, .declareFails _ h, .declare _ h' => nomatch (h.unique h').1
  | _, .declareFails _ h, .declareFails _ h' => by
    obtain ⟨hf, rfl⟩ := h.unique h'
    cases hf
    exact ⟨rfl, rfl, rfl⟩
  | _, .block h, .block h' => by
    obtain ⟨rfl, rfl, henv⟩ := h.unique h'
    exact ⟨rfl, rfl, (List.cons.inj henv).2⟩

theorem ExecutesAll.unique {env env₁ env₂ : Env} {f₁ f₂ : Option Failure}
    {printed₁ printed₂ : List String} : ∀ {program : List Stmt},
    ExecutesAll env program f₁ printed₁ env₁ → ExecutesAll env program f₂ printed₂ env₂ →
    f₁ = f₂ ∧ printed₁ = printed₂ ∧ env₁ = env₂
  | _, .nil, .nil => ⟨rfl, rfl, rfl⟩
  | _, .cons h hr, .cons h' hr' => by
    obtain ⟨-, rfl, rfl⟩ := h.unique h'
    obtain ⟨rfl, rfl, rfl⟩ := hr.unique hr'
    exact ⟨rfl, rfl, rfl⟩
  | _, .cons h _, .fails h' => nomatch (h.unique h').1
  | _, .fails h, .cons h' _ => nomatch (h.unique h').1
  | _, .fails h, .fails h' => h.unique h'

end

end Reference

end Scriptlet
