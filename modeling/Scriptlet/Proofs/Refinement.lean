import Scriptlet.Interpreter.Execution
import Scriptlet.Proofs.ReferenceUnique
import Scriptlet.Proofs.ScopeMaps

/-!
# The interpreter follows the rules

Seen through the maps of its chain, the interpreter does what the rules say
(`Interpreter.execAll_iff_executesAll`). Its pointer to the current scope comes back after each
block, and the scopes off the chain stay as they are.
-/

namespace Scriptlet

namespace Interpreter

open Reference

/-- What the current scope sees, the innermost map first. -/
def maps (s : Interpreter) : Env :=
  s.scopes.maps s.current

/-- The current scope is open, and its chain goes through open scopes, through each once. -/
def Linked (s : Interpreter) : Prop :=
  s.scopes.Linked s.current

/-- The same scopes and current scope, with other names at most in the scopes of its chain. -/
structure Frame (s s' : Interpreter) : Prop where
  current : s'.current = s.current
  scopes : s.scopes.Frame s'.scopes (s.scopes.chain s.current)

variable {s s' s'' : Interpreter}

theorem Frame.refl (s : Interpreter) : s.Frame s :=
  ⟨rfl, Scopes.Frame.refl _ _⟩

theorem Frame.trans (h : s.Frame s') (h' : s'.Frame s'') : s.Frame s'' := by
  refine ⟨h'.current.trans h.current, h.scopes.trans ?_⟩
  rw [← h.scopes.chain, ← h.current]
  exact h'.scopes

theorem Linked.of_frame (h : s.Linked) (hf : s.Frame s') : s'.Linked := by
  rw [Linked, hf.current]
  exact Scopes.Linked.of_frame h hf.scopes

theorem linked_fresh : fresh.Linked :=
  Scopes.linked_global ∅

/-- Every list of maps, but for the empty one, is what some interpreter sees. -/
theorem exists_linked (m : Bindings) (env : Env) : ∃ s, Linked s ∧ s.maps = m :: env := by
  obtain ⟨scopes, i, hs, hm⟩ := Scopes.exists_linked m env
  exact ⟨⟨scopes, i⟩, hs, hm⟩

/-! ### Names -/

theorem read_eq (s : Interpreter) (x : Token) :
    s.read x = match lookup? s.maps x.lexeme with
      | some v => .ok v
      | none => .error ⟨x, .undefinedName⟩ := by
  rw [read, Scopes.read, Scopes.get?_eq_lookup?]
  rfl

theorem define_spec (h : s.Linked) (x : String) (v : Value) :
    (s.define x v).maps = Reference.define s.maps x v ∧ s.Frame (s.define x v) := by
  obtain ⟨outer, hc⟩ := Scopes.chain_eq_cons h.opened
  refine ⟨Scopes.maps_define h, rfl, Scopes.frame_define ?_⟩
  rw [hc]
  exact List.mem_cons_self

theorem write_of_some (h : s.Linked) {x : Token} {v : Value} {env : Env}
    (ha : assign? s.maps x.lexeme v = some env) :
    ∃ s', s.write x v = .ok s' ∧ s'.maps = env ∧ s.Frame s' := by
  rw [maps, ← Scopes.maps_assign? h] at ha
  obtain ⟨scopes, hs, rfl⟩ := Option.map_eq_some_iff.1 ha
  refine ⟨{ s with scopes }, ?_, rfl, rfl, Scopes.frame_assign? hs⟩
  rw [write, Scopes.write, hs]
  rfl

theorem write_of_none (h : s.Linked) {x : Token} {v : Value}
    (ha : assign? s.maps x.lexeme v = none) : s.write x v = .error ⟨x, .undefinedName⟩ := by
  rw [maps, ← Scopes.maps_assign? h, Option.map_eq_none_iff] at ha
  rw [write, Scopes.write, ha]
  rfl

/-! ### Blocks -/

theorem linked_enter (h : s.Linked) : s.enter.Linked :=
  Scopes.Linked.extend h ∅

theorem maps_enter (h : s.Linked) : s.enter.maps = ∅ :: s.maps :=
  Scopes.maps_extend h

/-- After a block the head of the maps is dropped, and nothing else has changed but on the chain. -/
theorem leave_spec (h : s.Linked) (hf : s.enter.Frame s') :
    (∃ names, s'.maps = names :: (s'.leave s.current).maps) ∧ s.Frame (s'.leave s.current) := by
  have hchain : s.enter.scopes.chain s.enter.current
      = s.scopes.next :: s.scopes.chain s.current := Scopes.chain_extend_next _ _ _
  have hframe := hf.scopes
  rw [hchain] at hframe
  refine ⟨⟨s'.scopes.names s.scopes.next, ?_⟩, rfl, Scopes.frame_close hframe⟩
  rw [maps, hf.current]
  exact Scopes.maps_close h hframe

end Interpreter

/-! ### Evaluation -/

namespace Evaluation

open Reference

variable {s s' s'' : Interpreter}

/-- What an evaluation gives, a fault as a failure. -/
def outcome : EStateM.Result Fault Interpreter Value → Except Failure Value
  | .ok v _ => .ok v
  | .error fault _ => .error fault.failure

/-- The interpreter after an evaluation. -/
def after : EStateM.Result Fault Interpreter Value → Interpreter
  | .ok _ s => s
  | .error _ s => s

/-- An evaluation from `s` of this result follows the rules, within the frame of `s`. -/
def Follows (s : Interpreter) (e : Expr) (r : EStateM.Result Fault Interpreter Value) : Prop :=
  Evaluates s.maps e (outcome r) (after r).maps ∧ s.Frame (after r)

theorem Follows.of_ok {e : Expr} {r : EStateM.Result Fault Interpreter Value} {v : Value}
    (h : Follows s e r) (hr : r = .ok v s') : Evaluates s.maps e (.ok v) s'.maps ∧ s.Frame s' := by
  subst hr
  exact h

theorem Follows.of_error {e : Expr} {r : EStateM.Result Fault Interpreter Value} {fault : Fault}
    (h : Follows s e r) (hr : r = .error fault s') :
    Evaluates s.maps e (.error fault.failure) s'.maps ∧ s.Frame s' := by
  subst hr
  exact h

theorem outcome_faultAt (o : Token) (r : Except Fault.Cause Value) (s : Interpreter) :
    outcome (faultAt o r s) = blame o (outcomeOf o r) ∧ after (faultAt o r s) = s := by
  cases r <;> exact ⟨rfl, rfl⟩

variable {e left right : Expr} {o x : Token} {v w : Value}

theorem follows_name (s : Interpreter) (x : Token) : Follows s (.name x) (read x s) := by
  rw [read, Interpreter.read_eq]
  cases h : lookup? s.maps x.lexeme with
  | none => exact ⟨.undefinedName h, .refl s⟩
  | some v => exact ⟨.name h, .refl s⟩

theorem follows_unary (hf : s.Frame s') (h : Evaluates s.maps e (.ok v) s'.maps) :
    Follows s (.unary o e) (faultAt o (Value.unary o.kind v) s') := by
  obtain ⟨ho, ha⟩ := outcome_faultAt o (Value.unary o.kind v) s'
  rw [Follows, ho, ha]
  exact ⟨.unary h (unary_iff.2 rfl), hf⟩

theorem follows_binary (hf : s.Frame s'') (hl : Evaluates s.maps left (.ok v) s'.maps)
    (hr : Evaluates s'.maps right (.ok w) s''.maps) :
    Follows s (.binary left o right) (faultAt o (Value.binary o.kind v w) s'') := by
  obtain ⟨ho, ha⟩ := outcome_faultAt o (Value.binary o.kind v w) s''
  rw [Follows, ho, ha]
  exact ⟨.binary hl hr (binary_iff.2 rfl), hf⟩

theorem follows_assign (hs : s.Linked) (hf : s.Frame s')
    (h : Evaluates s.maps e (.ok v) s'.maps) :
    Follows s (.assign x e) ((do write x v; pure v : Evaluation Value) s') := by
  cases ha : assign? s'.maps x.lexeme v with
  | none =>
    have hw : write x v s' = .error ⟨x, .undefinedName⟩ s' := by
      rw [write, Interpreter.write_of_none (hs.of_frame hf) ha]
    rw [bind_of_error hw]
    exact ⟨.assignUndefined h ha, hf⟩
  | some env =>
    obtain ⟨s'', hs'', rfl, hf'⟩ := Interpreter.write_of_some (hs.of_frame hf) ha
    have hw : write x v s' = .ok () s'' := by
      rw [write, hs'']
    rw [bind_of_ok hw]
    exact ⟨.assign h ha, hf.trans hf'⟩

end Evaluation

open Reference Evaluation in
theorem Expr.follows_eval (e : Expr) {s : Interpreter} (hs : s.Linked) :
    Follows s e (e.eval s) := by
  induction e generalizing s with
  | literal v => exact ⟨.literal v, .refl s⟩
  | group inner ih => exact ⟨.group (ih hs).1, (ih hs).2⟩
  | unary o right ih =>
    rw [Expr.eval]
    cases hv : right.eval s with
    | error fault s' =>
      obtain ⟨h, hf⟩ := (ih hs).of_error hv
      rw [bind_of_error hv]
      exact ⟨.unaryFails h, hf⟩
    | ok v s' =>
      obtain ⟨h, hf⟩ := (ih hs).of_ok hv
      rw [bind_of_ok hv]
      exact follows_unary hf h
  | binary left o right ihl ihr =>
    rw [Expr.eval]
    cases hv : left.eval s with
    | error fault s' =>
      obtain ⟨hl, hf⟩ := (ihl hs).of_error hv
      rw [bind_of_error hv]
      exact ⟨.leftFails hl, hf⟩
    | ok v s' =>
      obtain ⟨hl, hf⟩ := (ihl hs).of_ok hv
      rw [bind_of_ok hv]
      cases hw : right.eval s' with
      | error fault s'' =>
        obtain ⟨hr, hf'⟩ := (ihr (hs.of_frame hf)).of_error hw
        rw [bind_of_error hw]
        exact ⟨.rightFails hl hr, hf.trans hf'⟩
      | ok w s'' =>
        obtain ⟨hr, hf'⟩ := (ihr (hs.of_frame hf)).of_ok hw
        rw [bind_of_ok hw]
        exact follows_binary (hf.trans hf') hl hr
  | name x => exact follows_name s x
  | assign x e ih =>
    rw [Expr.eval]
    cases hv : e.eval s with
    | error fault s' =>
      obtain ⟨h, hf⟩ := (ih hs).of_error hv
      rw [bind_of_error hv]
      exact ⟨.assignFails h, hf⟩
    | ok v s' =>
      obtain ⟨h, hf⟩ := (ih hs).of_ok hv
      rw [bind_of_ok hv]
      exact follows_assign hs hf h

/-! ### Execution -/

namespace Run

open Reference

/-- A run from `s` follows the rules for a statement, within the frame of `s`. -/
def Follows (s : Interpreter) (stmt : Stmt) (r : Run) : Prop :=
  Executes s.maps stmt (r.fault.map Fault.failure) r.printed r.after.maps ∧ s.Frame r.after

/-- A run from `s` follows the rules for statements in order, within the frame of `s`. -/
def FollowsAll (s : Interpreter) (program : List Stmt) (r : Run) : Prop :=
  ExecutesAll s.maps program (r.fault.map Fault.failure) r.printed r.after.maps ∧ s.Frame r.after

end Run

open Reference Evaluation in
theorem Run.follows_ofEvaluation {s : Interpreter} (hs : s.Linked) {e : Expr} {stmt : Stmt}
    {use : Value → Interpreter → Run}
    (hok : ∀ v s', s.Frame s' → Evaluates s.maps e (.ok v) s'.maps → Follows s stmt (use v s'))
    (hfail : ∀ f env, Evaluates s.maps e (.error f) env → Executes s.maps stmt (some f) [] env) :
    Follows s stmt (ofEvaluation e s use) := by
  rw [ofEvaluation, EStateM.run]
  cases hr : e.eval s with
  | error fault s' =>
    obtain ⟨h, hf⟩ := (e.follows_eval hs).of_error hr
    exact ⟨hfail _ _ h, hf⟩
  | ok v s' =>
    obtain ⟨h, hf⟩ := (e.follows_eval hs).of_ok hr
    exact hok v s' hf h

open Reference Run in
mutual

theorem Stmt.follows_exec : ∀ (stmt : Stmt) {s : Interpreter}, s.Linked →
    Follows s stmt (stmt.exec s)
  | .expression e, s, hs =>
    follows_ofEvaluation hs (fun _ _ hf h => ⟨.expression h, hf⟩) fun _ _ h => .expressionFails h
  | .print e, s, hs =>
    follows_ofEvaluation hs (fun _ _ hf h => ⟨.print h, hf⟩) fun _ _ h => .printFails h
  | .block body, s, hs => by
    -- The scope is closed whatever the body ended in, so there are no cases of its fault.
    obtain ⟨h, hf⟩ := follows_execAll body (Interpreter.linked_enter hs)
    obtain ⟨⟨names, hmaps⟩, hleave⟩ := Interpreter.leave_spec hs hf
    rw [Interpreter.maps_enter hs, hmaps] at h
    exact ⟨.block h, hleave⟩
  | .declare x none, s, hs => by
    obtain ⟨hd, hf⟩ := Interpreter.define_spec hs x.lexeme .nil
    refine ⟨?_, hf⟩
    show Executes s.maps _ none [] (s.define x.lexeme .nil).maps
    rw [hd]
    exact .declareNil x
  | .declare x (some e), s, hs =>
    follows_ofEvaluation hs (fun v s' hf h => by
      obtain ⟨hd, hf'⟩ := Interpreter.define_spec (hs.of_frame hf) x.lexeme v
      refine ⟨?_, hf.trans hf'⟩
      show Executes s.maps _ none [] (s'.define x.lexeme v).maps
      rw [hd]
      exact .declare x h) fun _ _ h => .declareFails x h

theorem Stmt.follows_execAll : ∀ (program : List Stmt) {s : Interpreter}, s.Linked →
    FollowsAll s program (Stmt.execAll program s)
  | [], s, _ => ⟨.nil, .refl s⟩
  | stmt :: rest, s, hs => by
    obtain ⟨h, hf⟩ := Stmt.follows_exec stmt hs
    rw [Stmt.execAll, Run.andThen]
    cases hfault : (stmt.exec s).fault with
    | some fault =>
      rw [hfault] at h
      refine ⟨?_, hf⟩
      rw [hfault]
      exact .fails h
    | none =>
      rw [hfault] at h
      obtain ⟨hr, hf'⟩ := Stmt.follows_execAll rest (hs.of_frame hf)
      exact ⟨.cons h hr, hf.trans hf'⟩

end

/-- From a chain of distinct open scopes, the rules say of statements exactly what executing them
does: the first failure if any, the printed lines, and the maps of the chain afterwards. The current
scope is again the same, and all scopes off its chain are unchanged. -/
theorem Interpreter.execAll_iff_executesAll {s : Interpreter} (hs : s.Linked)
    (program : List Stmt) :
    (∀ failure printed env, Reference.ExecutesAll s.maps program failure printed env
      ↔ (Stmt.execAll program s).fault.map Fault.failure = failure
        ∧ (Stmt.execAll program s).printed = printed ∧ (Stmt.execAll program s).after.maps = env)
      ∧ s.Frame (Stmt.execAll program s).after := by
  obtain ⟨h, hf⟩ := Stmt.follows_execAll program hs
  refine ⟨fun failure printed env => ⟨fun h' => h.unique h', ?_⟩, hf⟩
  rintro ⟨rfl, rfl, rfl⟩
  exact h

open Reference in
theorem Interpreter.execAll_block_undefined :
    let b := Token.ident "b" 3
    let r := Stmt.execAll [.block [.print (.literal .nil), .print (.name b)]] fresh
    r.fault.map Fault.failure = some ⟨b, "Undefined variable 'b'."⟩
      ∧ r.printed = ["nil"] ∧ r.after.maps = [∅] := by
  have hb : lookup? [∅, ∅] "b" = none := by simp [lookup?]
  have hbody : ExecutesAll [∅, ∅] [.print (.literal .nil), .print (.name (Token.ident "b" 3))]
      (some (undefined (Token.ident "b" 3))) (["nil"] ++ []) [∅, ∅] :=
    .cons (.print (.literal .nil)) (.fails (.printFails (.undefinedName hb)))
  exact ((execAll_iff_executesAll linked_fresh _).1 _ _ _).1 (.fails (.block hbody))

end Scriptlet
