import Scriptlet.Proofs.History
import Scriptlet.Proofs.Undefined

/-!
# What a program touches

A program touches its scopes only where its text says so (`Interpreter.Touches`). An expression
gives new values to names that it assigns to, each in the nearest scope that holds the name;
statements besides bind the names that they declare, in the scope that they are executed in. That
is so however they end, and a block leaves the names of all scopes around it as they were
(`Interpreter.touches_of_text`). As no name is ever lost, a global name stays bound for the rest of
its session.
-/

namespace Scriptlet

/-! ### The names that are assigned to -/

/-- The names that an expression assigns to. -/
def Expr.targets : Expr → List String
  | literal _ => []
  | group inner => inner.targets
  | unary _ right => right.targets
  | binary left _ right => left.targets ++ right.targets
  | name _ => []
  | assign target value => value.targets ++ [target.lexeme]

mutual

/-- The names that the expressions of a statement assign to, at any depth. -/
def Stmt.targets : Stmt → List String
  | expression e => e.targets
  | print e => e.targets
  | block body => Stmt.targetsAll body
  | declare _ none => []
  | declare _ (some e) => e.targets

def Stmt.targetsAll : List Stmt → List String
  | [] => []
  | stmt :: rest => stmt.targets ++ Stmt.targetsAll rest

end

/-! ### The nearest scope that holds a name -/

namespace Scopes

variable {s : Scopes} {i j : ScopeId} {x : String} {v : Value}

/-- Along the chain of `i`, the scope `j` is the first one that holds the name. -/
def Nearest (s : Scopes) (i : ScopeId) (x : String) (j : ScopeId) : Prop :=
  ∃ inner outer, s.chain i = inner ++ j :: outer ∧ x ∈ s.names j ∧ ∀ k ∈ inner, x ∉ s.names k

theorem owner?_eq_some_iff : s.owner? i x = some j ↔ s.Nearest i x j := by
  rw [owner?, List.find?_eq_some_iff_append, isSome_here?_iff, Nearest]
  constructor
  · rintro ⟨hj, inner, outer, hchain, hinner⟩
    refine ⟨inner, outer, hchain, hj, fun k hk hx => ?_⟩
    simpa [isSome_here?_iff.2 hx] using hinner k hk
  · rintro ⟨inner, outer, hchain, hj, hinner⟩
    refine ⟨hj, inner, outer, hchain, fun k hk => ?_⟩
    rw [Bool.eq_false_iff.2 fun hx => hinner k hk (isSome_here?_iff.1 hx)]
    rfl

theorem names_next (s : Scopes) : s.names s.next = ∅ :=
  names_of_le (Nat.le_refl _)

/-! ### One binding -/

/-- A binding is made in a scope that is open, and nothing happens in any other. -/
theorem names_define_cases (s : Scopes) (i : ScopeId) (x : String) (v : Value) (j : ScopeId) :
    (s.define i x v).names j = s.names j
      ∨ j = i ∧ (s.define i x v).names j = (s.names j).insert x v := by
  by_cases hj : j = i
  · subst hj
    rcases Nat.lt_or_ge j s.all.size with hlt | hle
    · exact .inr ⟨rfl, names_define_self hlt⟩
    · have hle' : (s.define j x v).all.size ≤ j := by
        rwa [Scopes.define, Array.size_modify]
      exact .inl ((names_of_le hle').trans (names_of_le hle).symm)
  · exact .inl (names_define_of_ne hj)

theorem mem_define_of_mem {y : String} (hy : y ∈ s.names j) :
    y ∈ (s.define i x v).names j := by
  rcases names_define_cases s i x v j with h | ⟨-, h⟩
  · rwa [h]
  · rw [h, Std.ExtHashMap.mem_insert]
    exact .inr hy

theorem mem_of_mem_define {y : String} (hy : y ∈ (s.define i x v).names j) :
    y ∈ s.names j ∨ j = i ∧ y = x := by
  rcases names_define_cases s i x v j with h | ⟨hj, h⟩
  · exact .inl (h ▸ hy)
  · rw [h, Std.ExtHashMap.mem_insert, beq_iff_eq] at hy
    exact hy.symm.imp_right fun hx => ⟨hj, hx.symm⟩

theorem eq_of_getElem?_define_ne {y : String}
    (hy : ((s.define i x v).names j)[y]? ≠ (s.names j)[y]?) : j = i ∧ y = x := by
  rcases names_define_cases s i x v j with h | ⟨hj, h⟩
  · exact absurd (by rw [h]) hy
  · refine ⟨hj, Classical.byContradiction fun hne => hy ?_⟩
    rw [h, Std.ExtHashMap.getElem?_insert, if_neg (by simpa using Ne.symm hne)]

end Scopes

namespace Interpreter

open Scopes

variable {s s' s'' : Interpreter} {declared declared' targets targets' : List String}
  {i : ScopeId} {x : String}

/-- From `s` to `s'` the scopes and the current one stay, and no name is lost. Names are bound only
in the current scope, and only those of `declared`. All other values that change are those of names
of `targets`, each in the nearest scope that holds the name. -/
structure Touches (declared targets : List String) (s s' : Interpreter) : Prop where
  current : s'.current = s.current
  size : s'.scopes.all.size = s.scopes.all.size
  chain : ∀ i, s'.scopes.chain i = s.scopes.chain i
  kept : ∀ i, ∀ x ∈ s.scopes.names i, x ∈ s'.scopes.names i
  added : ∀ i, ∀ x ∈ s'.scopes.names i, x ∈ s.scopes.names i ∨ i = s.current ∧ x ∈ declared
  changed : ∀ i x, (s'.scopes.names i)[x]? ≠ (s.scopes.names i)[x]? →
    i = s.current ∧ x ∈ declared ∨ x ∈ targets ∧ s.scopes.Nearest s.current x i

namespace Touches

theorem refl (s : Interpreter) : Touches declared targets s s where
  current := rfl
  size := rfl
  chain _ := rfl
  kept _ _ hx := hx
  added _ _ hx := .inl hx
  changed _ _ h := absurd rfl h

theorem mono (h : Touches declared targets s s') (hd : declared ⊆ declared')
    (ht : targets ⊆ targets') : Touches declared' targets' s s' where
  current := h.current
  size := h.size
  chain := h.chain
  kept := h.kept
  added i x hx := (h.added i x hx).imp_right fun h => ⟨h.1, hd h.2⟩
  changed i x hx := (h.changed i x hx).imp (fun h => ⟨h.1, hd h.2⟩) fun h => ⟨ht h.1, h.2⟩

/-- The nearest scope that holds a name stays so, unless the name was bound in the current one. -/
theorem nearest (h : Touches declared targets s s') (hx : s'.scopes.Nearest s'.current x i) :
    i = s.current ∧ x ∈ declared ∨ s.scopes.Nearest s.current x i := by
  rw [h.current] at hx
  by_cases hnew : s.current = i ∧ x ∈ declared
  · exact .inl ⟨hnew.1.symm, hnew.2⟩
  · obtain ⟨inner, outer, hchain, hi, hinner⟩ := hx
    rw [h.chain] at hchain
    refine .inr ⟨inner, outer, hchain, ?_, fun k hk hold => hinner k hk (h.kept k x hold)⟩
    exact (h.added i x hi).resolve_right fun hadded => hnew ⟨hadded.1.symm, hadded.2⟩

theorem trans (h : Touches declared targets s s') (h' : Touches declared' targets' s' s'') :
    Touches (declared ++ declared') (targets ++ targets') s s'' where
  current := h'.current.trans h.current
  size := h'.size.trans h.size
  chain i := (h'.chain i).trans (h.chain i)
  kept i x hx := h'.kept i x (h.kept i x hx)
  added i x hx := by
    rcases h'.added i x hx with hx | ⟨hi, hx⟩
    · exact (h.added i x hx).imp_right fun h => ⟨h.1, List.mem_append_left _ h.2⟩
    · exact .inr ⟨hi.trans h.current, List.mem_append_right _ hx⟩
  changed i x hx := by
    by_cases hfirst : (s'.scopes.names i)[x]? = (s.scopes.names i)[x]?
    · rw [← hfirst] at hx
      rcases h'.changed i x hx with ⟨hi, hx⟩ | ⟨hx, hnear⟩
      · exact .inl ⟨hi.trans h.current, List.mem_append_right _ hx⟩
      · exact (h.nearest hnear).imp (fun h => ⟨h.1, List.mem_append_left _ h.2⟩)
          fun h => ⟨List.mem_append_right _ hx, h⟩
    · exact (h.changed i x hfirst).imp (fun h => ⟨h.1, List.mem_append_left _ h.2⟩)
        fun h => ⟨List.mem_append_left _ h.1, h.2⟩

end Touches

theorem touches_define (s : Interpreter) (x : String) (v : Value) :
    Touches [x] [] s (s.define x v) where
  current := rfl
  size := Array.size_modify
  chain := s.scopes.chain_define s.current x v
  kept _ _ hy := mem_define_of_mem hy
  added _ _ hy := (mem_of_mem_define hy).imp_right fun h => ⟨h.1, List.mem_singleton.2 h.2⟩
  changed i y hy := by
    obtain ⟨hi, rfl⟩ := eq_of_getElem?_define_ne hy
    exact .inl ⟨hi, List.mem_cons_self⟩

/-- A successful assignment defines the name anew in the nearest scope that holds it. -/
theorem nearest_of_write {x : Token} {v : Value} (h : s.write x v = .ok s') :
    ∃ j, s.scopes.Nearest s.current x.lexeme j
      ∧ s' = { s with scopes := s.scopes.define j x.lexeme v } := by
  rw [write, Scopes.write] at h
  cases ha : s.scopes.assign? s.current x.lexeme v with
  | none =>
    rw [ha] at h
    cases h
  | some scopes =>
    rw [ha] at h
    cases h
    obtain ⟨j, hj, rfl⟩ := Option.map_eq_some_iff.1 ha
    exact ⟨j, owner?_eq_some_iff.1 hj, rfl⟩

theorem touches_write {x : Token} {v : Value} (h : s.write x v = .ok s') :
    Touches [] [x.lexeme] s s' := by
  obtain ⟨j, hnear, rfl⟩ := nearest_of_write h
  obtain ⟨-, -, -, hmem, -⟩ := id hnear
  exact
    { current := rfl
      size := Array.size_modify
      chain := s.scopes.chain_define j x.lexeme v
      kept := fun _ _ hy => mem_define_of_mem hy
      added := fun i y hy => by
        rcases mem_of_mem_define hy with hy | ⟨rfl, rfl⟩
        · exact .inl hy
        · exact .inl hmem
      changed := fun i y hy => by
        obtain ⟨rfl, rfl⟩ := eq_of_getElem?_define_ne hy
        exact .inr ⟨List.mem_cons_self, hnear⟩ }

/-! ### Blocks -/

/-- A block starts with no new name anywhere. -/
theorem names_enter (s : Interpreter) (i : ScopeId) :
    s.enter.scopes.names i = s.scopes.names i := by
  show (s.scopes.extend s.current ∅).names i = s.scopes.names i
  rcases Nat.lt_trichotomy i s.scopes.next with hlt | rfl | hgt
  · exact names_extend_of_lt hlt
  · rw [names_extend_next, names_next]
  · have hsize : (s.scopes.extend s.current ∅).all.size ≤ i := by
      rw [Scopes.extend, Array.size_push]
      exact hgt
    rw [names_of_le hsize, names_of_le (Nat.le_of_lt hgt)]

/-- The scope of a block holds no name when the block starts. -/
theorem nearest_of_enter (h : s.enter.scopes.Nearest s.enter.current x i) :
    s.scopes.Nearest s.current x i := by
  obtain ⟨inner, outer, hchain, hi, hinner⟩ := h
  rw [names_enter] at hi
  have hnext : s.enter.scopes.chain s.enter.current = s.scopes.next :: s.scopes.chain s.current :=
    chain_extend_next s.scopes s.current ∅
  rw [hnext] at hchain
  cases inner with
  | nil =>
    obtain rfl : s.scopes.next = i := List.head_eq_of_cons_eq hchain
    rw [names_next] at hi
    exact absurd hi Std.ExtHashMap.not_mem_empty
  | cons k inner =>
    refine ⟨inner, outer, List.tail_eq_of_cons_eq hchain, hi, fun j hj hx => ?_⟩
    exact hinner j (List.mem_cons_of_mem k hj) (by rwa [names_enter])

namespace Touches

variable (h : Touches declared targets s.enter s')
include h

theorem size_enter : s'.scopes.all.size = s.scopes.all.size + 1 :=
  h.size.trans (Array.size_push _)

theorem size_leave : (s'.leave s.current).scopes.all.size = s.scopes.all.size := by
  rw [Interpreter.leave, close, Array.size_pop, h.size_enter, Nat.add_sub_cancel]

theorem chain_leave (i : ScopeId) :
    (s'.leave s.current).scopes.chain i = s.scopes.chain i := by
  rcases Nat.lt_or_ge i s.scopes.all.size with hi | hi
  · have hclose : i + 1 < s'.scopes.all.size := h.size_enter ▸ Nat.succ_lt_succ hi
    exact (chain_close_of_lt hclose).trans ((h.chain i).trans (chain_extend_of_lt hi))
  · exact (chain_of_le (h.size_leave ▸ hi)).trans (chain_of_le hi).symm

/-- A scope is as it was before the block or, if it is not the block's own, as the block left it. -/
theorem names_leave_cases (i : ScopeId) :
    (s'.leave s.current).scopes.names i = s.scopes.names i
      ∨ i ≠ s.enter.current ∧ (s'.leave s.current).scopes.names i = s'.scopes.names i := by
  rcases Nat.lt_or_ge i s.scopes.all.size with hi | hi
  · have hclose : i + 1 < s'.scopes.all.size := h.size_enter ▸ Nat.succ_lt_succ hi
    exact .inr ⟨Nat.ne_of_lt hi, names_close_of_lt hclose⟩
  · exact .inl ((names_of_le (h.size_leave ▸ hi)).trans (names_of_le hi).symm)

/-- What is done within a block is done to the scopes around it, but for the names that the block
declares. -/
theorem leave : Touches [] targets s (s'.leave s.current) where
  current := rfl
  size := h.size_leave
  chain := h.chain_leave
  kept i x hx := by
    rcases h.names_leave_cases i with hn | ⟨-, hn⟩
    · rwa [hn]
    · rw [hn]
      exact h.kept i x (by rwa [names_enter])
  added i x hx := by
    rcases h.names_leave_cases i with hn | ⟨hne, hn⟩
    · exact .inl (hn ▸ hx)
    · rw [hn] at hx
      have hx := (h.added i x hx).resolve_right fun hnew => hne hnew.1
      exact .inl (by rwa [names_enter] at hx)
  changed i x hx := by
    rcases h.names_leave_cases i with hn | ⟨hne, hn⟩
    · exact absurd (by rw [hn]) hx
    · rw [hn, ← names_enter s] at hx
      obtain ⟨htarget, hnear⟩ := (h.changed i x hx).resolve_left fun hnew => hne hnew.1
      exact .inr ⟨htarget, nearest_of_enter hnear⟩

end Touches

end Interpreter

/-! ### Evaluation -/

namespace Evaluation

open Interpreter

variable {α β : Type} {targets targets' : List String} {x : Evaluation α} {f : α → Evaluation β}

/-- However it ends, the evaluation binds no name, and gives new values to names of `targets` only,
each in the nearest scope that holds the name. -/
def Assigns (targets : List String) (x : Evaluation α) : Prop :=
  ∀ s, match x s with
    | .ok _ s' => s.Touches [] targets s'
    | .error _ s' => s.Touches [] targets s'

theorem Assigns.bind (hx : Assigns targets x) (hf : ∀ a, Assigns targets' (f a)) :
    Assigns (targets ++ targets') (x >>= f) := by
  intro s
  have hs := hx s
  cases hr : x s with
  | error fault s' =>
    rw [hr] at hs
    rw [bind_of_error hr]
    exact hs.mono (List.Subset.refl _) (List.subset_append_left _ _)
  | ok a s' =>
    rw [hr] at hs
    rw [bind_of_ok hr]
    have hs' := hf a s'
    cases hr' : f a s' with
    | error fault s'' =>
      rw [hr'] at hs'
      exact hs.trans hs'
    | ok b s'' =>
      rw [hr'] at hs'
      exact hs.trans hs'

theorem assigns_pure (a : α) : Assigns [] (pure a) :=
  Touches.refl

theorem assigns_faultAt (token : Token) (r : Except Fault.Cause Value) :
    Assigns [] (faultAt token r) := by
  cases r <;> exact Touches.refl

theorem assigns_read (name : Token) : Assigns [] (read name) := by
  intro s
  rw [read]
  cases s.read name <;> exact .refl s

theorem assigns_write (name : Token) (v : Value) : Assigns [name.lexeme] (write name v) := by
  intro s
  rw [write]
  cases h : s.write name v with
  | error fault => exact .refl s
  | ok s' => exact touches_write h

end Evaluation

open Evaluation in
theorem Expr.assigns_eval (e : Expr) : Assigns e.targets e.eval := by
  induction e with
  | literal v => exact assigns_pure v
  | group inner ih => exact ih
  | unary operator right ih =>
    have h := ih.bind fun v => assigns_faultAt operator (Value.unary operator.kind v)
    rwa [List.append_nil] at h
  | binary left operator right ihl ihr =>
    have h := ihl.bind fun v => ihr.bind fun w =>
      assigns_faultAt operator (Value.binary operator.kind v w)
    rwa [List.append_nil] at h
  | name x => exact assigns_read x
  | assign target value ih =>
    exact ih.bind fun v => (assigns_write target v).bind fun _ => assigns_pure v

theorem Expr.touches_eval (e : Expr) (s : Interpreter) :
    s.Touches [] e.targets (Evaluation.after (e.eval s)) := by
  have h := e.assigns_eval s
  cases hr : e.eval s with
  | ok v s' =>
    rw [hr] at h
    exact h
  | error fault s' =>
    rw [hr] at h
    exact h

/-! ### Execution -/

section Execution

open Interpreter

/-- A statement touches what its expression does and what is done with the value. -/
theorem Run.touches_ofEvaluation {e : Expr} {s : Interpreter} {use : Value → Interpreter → Run}
    {declared : List String}
    (huse : ∀ v (s' : Interpreter), s'.Touches declared [] (use v s').after) :
    s.Touches declared e.targets (ofEvaluation e s use).after := by
  have h := e.touches_eval s
  rw [ofEvaluation, EStateM.run]
  cases hr : e.eval s with
  | error fault s' =>
    rw [hr] at h
    exact h.mono (List.nil_subset _) (List.Subset.refl _)
  | ok v s' =>
    rw [hr] at h
    have h' := h.trans (huse v s')
    rwa [List.append_nil] at h'

mutual

theorem Stmt.touches_exec : ∀ (stmt : Stmt) (s : Interpreter),
    s.Touches stmt.declared stmt.targets (stmt.exec s).after
  | .expression _, _ => Run.touches_ofEvaluation fun _ s' => .refl s'
  | .print _, _ => Run.touches_ofEvaluation fun _ s' => .refl s'
  | .block body, s => (Stmt.touches_execAll body s.enter).leave
  | .declare name none, s => touches_define s name.lexeme .nil
  | .declare name (some _), _ =>
    Run.touches_ofEvaluation fun v s' => touches_define s' name.lexeme v

theorem Stmt.touches_execAll : ∀ (program : List Stmt) (s : Interpreter),
    s.Touches (program.flatMap Stmt.declared) (Stmt.targetsAll program)
      (Stmt.execAll program s).after
  | [], s => .refl s
  | stmt :: rest, s => by
    have h := Stmt.touches_exec stmt s
    rw [Stmt.execAll, Run.andThen, List.flatMap_cons, Stmt.targetsAll]
    cases (stmt.exec s).fault with
    | some fault =>
      exact h.mono (List.subset_append_left _ _) (List.subset_append_left _ _)
    | none => exact h.trans (Stmt.touches_execAll rest _)

end

end Execution

/-! ### Sessions -/

namespace Session

variable {s : Session} {x : String}

theorem mem_globals_answer (hx : x ∈ s.globals) (request : Request) :
    x ∈ (s.answer request).session.globals := by
  obtain ⟨program, hafter⟩ := s.exists_interpreter_answer request
  rw [globals, hafter]
  exact (Stmt.touches_execAll program s.interpreter).kept _ x hx

theorem mem_globals_after (hx : x ∈ s.globals) (requests : List Request) :
    x ∈ (s.after requests).globals := by
  induction requests generalizing s with
  | nil => exact hx
  | cons request rest ih => exact ih (mem_globals_answer hx request)

end Session

open Session in
/-- However it ends, an expression prints nothing, binds no name, and changes values of names that
it assigns to only, each in the nearest scope that holds the name. Statements bind the names that
they declare in the scope they are executed in and no others, and a block binds no name in a scope
around it. No binding is ever lost, so what is a global name once stays one, whatever the session
is asked. -/
theorem Interpreter.touches_of_text :
    (∀ (e : Expr) (s : Interpreter),
      s.Touches [] e.targets (Evaluation.after (e.eval s))
        ∧ ((Stmt.expression e).exec s).printed = []
        ∧ ((Stmt.expression e).exec s).after = Evaluation.after (e.eval s))
      ∧ (∀ (program : List Stmt) (s : Interpreter),
        s.Touches (program.flatMap Stmt.declared) (Stmt.targetsAll program)
          (Stmt.execAll program s).after)
      ∧ (∀ (body : List Stmt) (s : Interpreter),
        s.Touches [] (Stmt.targetsAll body) ((Stmt.block body).exec s).after)
      ∧ ∀ (s : Session) (requests : List Request), ∀ x ∈ s.globals,
        x ∈ (s.after requests).globals := by
  refine ⟨fun e s => ⟨e.touches_eval s, ?_⟩, Stmt.touches_execAll,
    fun body => Stmt.touches_exec (.block body), fun s requests x hx => ?_⟩
  · rw [Stmt.exec, Run.ofEvaluation, EStateM.run]
    cases e.eval s <;> exact ⟨rfl, rfl⟩
  · exact mem_globals_after hx requests

/-- The expression assigns and then meets an undefined name, in statements and in a block too. The
line ends in a fault within its block, and the next source within another. -/
theorem Interpreter.touches_of_text_faults :
    let s := Session.fresh.after [.source "var a;"]
    let e := Expr.binary (.group (.assign (.ident "a" 1) (.literal (.bool true))))
      ⟨.plus, "+", .nil, 1⟩ (.name (.ident "c" 1))
    let body := [Stmt.declare (.ident "b" 1) none, .print e]
    (s.interpreter.Touches [] ["a"] (Evaluation.after (e.eval s.interpreter))
        ∧ ((Stmt.expression e).exec s.interpreter).printed = []
        ∧ ((Stmt.expression e).exec s.interpreter).fault.isSome = true)
      ∧ (s.interpreter.Touches ["b"] ["a"] (Stmt.execAll body s.interpreter).after
        ∧ (Stmt.execAll body s.interpreter).fault.isSome = true)
      ∧ (s.interpreter.Touches [] ["a"] ((Stmt.block body).exec s.interpreter).after
        ∧ ((Stmt.block body).exec s.interpreter).fault.isSome = true)
      ∧ "a" ∈ s.globals
      ∧ "a" ∈ (s.after [.line "{ var b; a = c; }", .source "{ a = true; print b; }"]).globals := by
  intro s e body
  obtain ⟨hexpression, hstatements, hblock, hsession⟩ := touches_of_text
  obtain ⟨htouches, hprinted, -⟩ := hexpression e s.interpreter
  have ha : "a" ∈ s.globals := by
    have hglobals : s.globals = (∅ : Bindings).insert "a" .nil := by
      unfold s
      cbv
    rw [hglobals, Std.ExtHashMap.mem_insert]
    exact .inl rfl
  refine ⟨⟨htouches, hprinted, ?_⟩, ⟨hstatements body s.interpreter, ?_⟩,
    ⟨hblock body s.interpreter, ?_⟩, ha, hsession s _ "a" ha⟩
  all_goals
    unfold s
    cbv

end Scriptlet
