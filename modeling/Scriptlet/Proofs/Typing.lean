import Scriptlet.Proofs.Assignment

/-!
# Types of expressions

A type for each name gives types to expressions (`Expr.HasType`). Where the names of a typed
expression resolve to values of their types, its evaluation gives a value of its type, or it stops
at one of its quotients whose divisor came out as a zero; no other fault is possible. Either way
its names resolve to values of their types again, whatever was assigned on the way
(`Expr.eval_of_hasType`).
-/

namespace Scriptlet

/-- The types of values. -/
inductive ValueType where
  | nil
  | boolean
  | number
  | string
deriving DecidableEq

def Value.type : Value → ValueType
  | nil => .nil
  | bool _ => .boolean
  | number _ => .number
  | string _ => .string

/-- What a unary operator gives for an operand of a type. -/
inductive Kind.TakesOne : Kind → ValueType → ValueType → Prop
  | negate : TakesOne .minus .number .number
  | not (type : ValueType) : TakesOne .bang type .boolean

/-- What a binary operator gives for operands of two types. -/
inductive Kind.TakesTwo : Kind → ValueType → ValueType → ValueType → Prop
  | add : TakesTwo .plus .number .number .number
  | join : TakesTwo .plus .string .string .string
  | arithmetic {k : Kind} (h : k ∈ [.minus, .star, .slash]) : TakesTwo k .number .number .number
  | comparison {k : Kind} (h : k ∈ [.greater, .greaterEqual, .less, .lessEqual]) :
      TakesTwo k .number .number .boolean
  | equality {k : Kind} (h : k ∈ [.equalEqual, .bangEqual]) (left right : ValueType) :
      TakesTwo k left right .boolean

/-- The expression has a type, given the types of names. -/
inductive Expr.HasType (types : String → ValueType) : Expr → ValueType → Prop
  | literal (value : Value) : HasType types (.literal value) value.type
  | group {inner : Expr} {type : ValueType} (h : HasType types inner type) :
      HasType types (.group inner) type
  | unary {operator : Token} {right : Expr} {operand type : ValueType}
      (h : HasType types right operand) (ho : operator.kind.TakesOne operand type) :
      HasType types (.unary operator right) type
  | binary {left : Expr} {operator : Token} {right : Expr} {leftType rightType type : ValueType}
      (hl : HasType types left leftType) (hr : HasType types right rightType)
      (ho : operator.kind.TakesTwo leftType rightType type) :
      HasType types (.binary left operator right) type
  | name (token : Token) : HasType types (.name token) (types token.lexeme)
  | assign {target : Token} {value : Expr} (h : HasType types value (types target.lexeme)) :
      HasType types (.assign target value) (types target.lexeme)

/-- The names resolve to values of their types. -/
def Interpreter.Respects (s : Interpreter) (types : String → ValueType) (names : List String) :
    Prop :=
  ∀ x ∈ names, ∃ v, s.resolve? x = some v ∧ v.type = types x

/-- In evaluating the expression from `s`, a quotient is reached whose right operand gives a zero
and leaves `s'`. The token is the operator of that quotient. -/
inductive Expr.DividesByZero : Expr → Interpreter → Token → Interpreter → Prop
  | here {left right : Expr} {operator : Token} {s t s' : Interpreter} {x y : Float}
      (ho : operator.kind = .slash) (hl : left.eval s = .ok (.number x) t)
      (hr : right.eval t = .ok (.number y) s') (hy : (y == 0) = true) :
      DividesByZero (.binary left operator right) s operator s'
  | group {inner : Expr} {s s' : Interpreter} {token : Token}
      (h : DividesByZero inner s token s') : DividesByZero (.group inner) s token s'
  | unary {operator : Token} {right : Expr} {s s' : Interpreter} {token : Token}
      (h : DividesByZero right s token s') : DividesByZero (.unary operator right) s token s'
  | left {left right : Expr} {operator : Token} {s s' : Interpreter} {token : Token}
      (h : DividesByZero left s token s') :
      DividesByZero (.binary left operator right) s token s'
  | right {left right : Expr} {operator : Token} {s t s' : Interpreter} {v : Value} {token : Token}
      (hl : left.eval s = .ok v t) (h : DividesByZero right t token s') :
      DividesByZero (.binary left operator right) s token s'
  | assign {target : Token} {value : Expr} {s s' : Interpreter} {token : Token}
      (h : DividesByZero value s token s') : DividesByZero (.assign target value) s token s'

/-! ### Operators on values of their types -/

namespace Value

theorem eq_number_of_type {v : Value} (h : v.type = .number) : ∃ x, v = .number x := by
  cases v with
  | number x => exact ⟨x, rfl⟩
  | _ => cases h

theorem eq_string_of_type {v : Value} (h : v.type = .string) : ∃ s, v = .string s := by
  cases v with
  | string s => exact ⟨s, rfl⟩
  | _ => cases h

theorem unary_of_takesOne {k : Kind} {v : Value} {type : ValueType}
    (h : k.TakesOne v.type type) : ∃ w, unary k v = .ok w ∧ w.type = type := by
  generalize hv : v.type = operand at h
  cases h with
  | negate =>
    obtain ⟨x, rfl⟩ := eq_number_of_type hv
    exact ⟨_, rfl, rfl⟩
  | not => exact ⟨_, rfl, rfl⟩

/-- An operator gives a value of its type for operands of its types, or divides by a zero. -/
theorem binary_of_takesTwo {k : Kind} {v w : Value} {type : ValueType}
    (h : k.TakesTwo v.type w.type type) :
    (∃ u, binary k v w = .ok u ∧ u.type = type)
      ∨ k = .slash ∧ binary k v w = .error .zeroDivisor
        ∧ ∃ x y, v = .number x ∧ w = .number y ∧ (y == 0) = true := by
  generalize hv : v.type = leftType at h
  generalize hw : w.type = rightType at h
  cases h with
  | add =>
    obtain ⟨x, rfl⟩ := eq_number_of_type hv
    obtain ⟨y, rfl⟩ := eq_number_of_type hw
    exact .inl ⟨_, rfl, rfl⟩
  | join =>
    obtain ⟨s, rfl⟩ := eq_string_of_type hv
    obtain ⟨t, rfl⟩ := eq_string_of_type hw
    exact .inl ⟨_, rfl, rfl⟩
  | arithmetic h =>
    obtain ⟨x, rfl⟩ := eq_number_of_type hv
    obtain ⟨y, rfl⟩ := eq_number_of_type hw
    simp only [List.mem_cons, List.not_mem_nil, or_false] at h
    rcases h with rfl | rfl | rfl
    · exact .inl ⟨_, rfl, rfl⟩
    · exact .inl ⟨_, rfl, rfl⟩
    · rw [binary, onNumbers, divide]
      split
      · rename_i hy
        exact .inr ⟨rfl, rfl, x, y, rfl, rfl, hy⟩
      · exact .inl ⟨_, rfl, rfl⟩
  | comparison h =>
    obtain ⟨x, rfl⟩ := eq_number_of_type hv
    obtain ⟨y, rfl⟩ := eq_number_of_type hw
    simp only [List.mem_cons, List.not_mem_nil, or_false] at h
    rcases h with rfl | rfl | rfl | rfl <;> exact .inl ⟨_, rfl, rfl⟩
  | equality h =>
    simp only [List.mem_cons, List.not_mem_nil, or_false] at h
    rcases h with rfl | rfl <;> exact .inl ⟨_, rfl, rfl⟩

end Value

/-! ### Evaluation -/

/-- An assignment of a value of the name's type succeeds, and names resolve to values of their types
as before. -/
theorem Interpreter.Respects.write {s : Interpreter} {types : String → ValueType}
    {names : List String} {x : Token} {v : Value} (h : s.Respects types names)
    (hx : x.lexeme ∈ names) (hv : v.type = types x.lexeme) :
    ∃ s', Evaluation.write x v s = .ok () s' ∧ s'.Respects types names := by
  obtain ⟨w, hw, -⟩ := h _ hx
  obtain ⟨s', hs'⟩ := Evaluation.exists_write (by rw [hw]; rfl) v
  refine ⟨s', hs', fun y hy => ?_⟩
  rw [Evaluation.resolve?_of_write hs']
  by_cases heq : y = x.lexeme
  · rw [if_pos heq, heq]
    exact ⟨v, rfl, hv⟩
  · rw [if_neg heq]
    exact h y hy

namespace Evaluation

variable {types : String → ValueType} {names : List String} {e e' : Expr} {type type' : ValueType}
  {s s' : Interpreter}

/-- What evaluating an expression of a type from `s` can give: a value of the type, or the fault of
a quotient of the expression, where names resolve to values of their types afterwards. -/
inductive Sound (types : String → ValueType) (names : List String) (e : Expr) (type : ValueType)
    (s : Interpreter) : EStateM.Result Fault Interpreter Value → Prop
  | value {v : Value} {s' : Interpreter} (hv : v.type = type) (hs : s'.Respects types names) :
      Sound types names e type s (.ok v s')
  | fault {token : Token} {s' : Interpreter} (h : e.DividesByZero s token s')
      (hs : s'.Respects types names) :
      Sound types names e type s (.error ⟨token, .zeroDivisor⟩ s')

/-- A part of an expression, reached in `t`, and what is done with its value. -/
theorem Sound.bind {x : Evaluation Value} {f : Value → Evaluation Value} {t : Interpreter}
    (hx : Sound types names e type t (x t))
    (hlift : ∀ token s', e.DividesByZero t token s' → e'.DividesByZero s token s')
    (hf : ∀ v t', x t = .ok v t' → v.type = type → t'.Respects types names →
      Sound types names e' type' s (f v t')) :
    Sound types names e' type' s ((x >>= f) t) := by
  generalize hr : x t = r at hx
  cases hx with
  | value hv hs =>
    rw [bind_of_ok hr]
    exact hf _ _ hr hv hs
  | fault h hs =>
    rw [bind_of_error hr]
    exact .fault (hlift _ _ h) hs

end Evaluation

open Evaluation in
theorem Expr.sound_eval {types : String → ValueType} {names : List String} {e : Expr}
    {type : ValueType} (h : e.HasType types type) (hn : e.names ⊆ names) {s : Interpreter}
    (hs : s.Respects types names) : Sound types names e type s (e.eval s) := by
  induction h generalizing s with
  | literal value => exact .value rfl hs
  | @group inner _ h ih =>
    have hinner := ih hn hs
    rw [Expr.eval]
    generalize inner.eval s = r at hinner
    cases hinner with
    | value hv hs' => exact .value hv hs'
    | fault h hs' => exact .fault h.group hs'
  | unary h ho ih =>
    refine (ih hn hs).bind (fun _ _ => .unary) fun v s' _ hv hs' => ?_
    obtain ⟨w, hw, htype⟩ := Value.unary_of_takesOne (hv ▸ ho)
    rw [hw]
    exact .value htype hs'
  | @binary left operator right _ _ _ hl hr ho ihl ihr =>
    have hsub := List.append_subset.1 hn
    refine (ihl hsub.1 hs).bind (fun _ _ => .left) fun v t hevl hv ht => ?_
    refine (ihr hsub.2 ht).bind (fun _ _ => .right hevl) fun w t' hevr hw ht' => ?_
    -- Both operands came out as values of their types, so only a quotient can fail.
    rcases Value.binary_of_takesTwo (hv ▸ hw ▸ ho) with ⟨u, hu, htype⟩ | ⟨hk, hu, x, y, rfl, rfl, hy⟩
    · rw [hu]
      exact .value htype ht'
    · rw [hu]
      exact .fault (.here hk hevl hevr hy) ht'
  | name token =>
    obtain ⟨v, hv, htype⟩ := hs token.lexeme (hn List.mem_cons_self)
    rw [Expr.eval, read_of_resolve? hv]
    exact .value htype hs
  | @assign target value h ih =>
    have hsub := List.cons_subset.1 hn
    refine (ih hsub.2 hs).bind (fun _ _ => .assign) fun v s' _ hv hs' => ?_
    obtain ⟨s'', hwrite, hs''⟩ := hs'.write hsub.1 hv
    rw [bind_of_ok hwrite]
    exact .value hv hs''

open Evaluation in
theorem Expr.DividesByZero.eval_eq {e : Expr} {s s' : Interpreter} {token : Token}
    (h : e.DividesByZero s token s') : e.eval s = .error ⟨token, .zeroDivisor⟩ s' := by
  induction h with
  | here ho hl hr hy =>
    rw [eval, bind_of_ok hl, bind_of_ok hr, ho, Value.binary, Value.onNumbers, Value.divide,
      if_pos hy]
    rfl
  | group h ih => exact ih
  | unary h ih => exact bind_of_error ih _
  | left h ih => exact bind_of_error ih _
  | right hl h ih => exact (bind_of_ok hl _).trans (bind_of_error ih _)
  | assign h ih => exact bind_of_error ih _

/-- Where the names of a typed expression resolve to values of their types, its evaluation gives a
value of its type, or stops with the fault of one of its quotients whose right operand gave a zero.
In both cases its names resolve to values of their types afterwards. -/
theorem Expr.eval_of_hasType {types : String → ValueType} {e : Expr} {type : ValueType}
    (h : e.HasType types type) {s : Interpreter} (hs : s.Respects types e.names) :
    (∃ v s', e.eval s = .ok v s' ∧ v.type = type ∧ s'.Respects types e.names)
      ∨ ∃ fault s', e.eval s = .error fault s' ∧ fault.message = "Division by zero."
        ∧ e.DividesByZero s fault.token s' ∧ s'.Respects types e.names := by
  have hsound := sound_eval h (List.Subset.refl e.names) hs
  generalize e.eval s = r at hsound ⊢
  cases hsound with
  | value hv hs' => exact .inl ⟨_, _, rfl, hv, hs'⟩
  | fault hd hs' => exact .inr ⟨_, _, rfl, rfl, hd, hs'⟩

/-- The divisor is a zero because of an assignment in it, and the name keeps its type. -/
theorem Expr.eval_of_hasType_quotient :
    let x := Token.ident "x" 1
    let difference := Expr.binary (.name x) ⟨.minus, "-", .nil, 1⟩ (.name x)
    let quotient := Expr.binary (.literal (.number 1)) ⟨.slash, "/", .nil, 1⟩ (.assign x difference)
    let s := Interpreter.fresh.define "x" (.number 2)
    let types := fun name => if name = "x" then ValueType.number else .nil
    quotient.HasType types .number ∧ s.Respects types quotient.names
      ∧ ∃ fault s', quotient.eval s = .error fault s' ∧ fault.message = "Division by zero."
        ∧ quotient.DividesByZero s fault.token s' ∧ s'.Respects types quotient.names := by
  intro x difference quotient s types
  have hx : Expr.HasType types (.name x) .number := .name x
  have hdifference : difference.HasType types .number :=
    .binary hx hx (.arithmetic List.mem_cons_self)
  have hquotient : quotient.HasType types .number :=
    .binary (.literal (.number 1)) (.assign hdifference) (.arithmetic (by simp))
  have hget : s.resolve? "x" = some (.number 2) := by
    unfold s
    cbv
  have hrespects : s.Respects types quotient.names := by
    have hnames : ∀ y ∈ quotient.names, y = "x" := by decide
    intro y hy
    rw [hnames y hy]
    exact ⟨_, hget, rfl⟩
  have hfault : ∃ t, quotient.DividesByZero s ⟨.slash, "/", .nil, 1⟩ t := by
    have hread : Evaluation.read x s = .ok (.number 2) s := Evaluation.read_of_resolve? hget
    have hzero : difference.eval s = .ok (.number (2 - 2)) s := by
      rw [eval, eval, Evaluation.bind_of_ok hread, Evaluation.bind_of_ok hread]
      rfl
    obtain ⟨t, hwrite, -⟩ := hrespects.write (x := x) (v := .number (2 - 2)) (by decide) rfl
    have hassign : (assign x difference).eval s = .ok (.number (2 - 2)) t := by
      rw [eval, Evaluation.bind_of_ok hzero, Evaluation.bind_of_ok hwrite]
      rfl
    exact ⟨t, .here rfl rfl hassign (by decide +kernel)⟩
  refine ⟨hquotient, hrespects, ?_⟩
  rcases eval_of_hasType hquotient hrespects with ⟨v, s', hok, -⟩ | herror
  · obtain ⟨t, hfault⟩ := hfault
    rw [hfault.eval_eq] at hok
    cases hok
  · exact herror

end Scriptlet
