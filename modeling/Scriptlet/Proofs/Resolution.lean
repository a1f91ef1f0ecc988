import Scriptlet.Proofs.Refinement

/-!
# What names resolve to

A program sees of its scopes only what its names resolve to. From two chains of scopes in which each
name of a program resolves alike, wherever it is bound, the program runs alike, and its names
resolve alike afterwards (`Interpreter.execAll_of_resolve`). A block around a program only puts an
empty scope in front, so it changes nothing that is printed or reported.
-/

namespace Scriptlet

/-! ### The names of a program -/

/-- The names that occur in an expression. -/
def Expr.names : Expr → List String
  | literal _ => []
  | group inner => inner.names
  | unary _ right => right.names
  | binary left _ right => left.names ++ right.names
  | name token => [token.lexeme]
  | assign target value => target.lexeme :: value.names

mutual

/-- The names that occur in a statement, also those that it declares. -/
def Stmt.names : Stmt → List String
  | expression e => e.names
  | print e => e.names
  | block body => Stmt.namesAll body
  | declare name none => [name.lexeme]
  | declare name (some e) => name.lexeme :: e.names

def Stmt.namesAll : List Stmt → List String
  | [] => []
  | stmt :: rest => stmt.names ++ Stmt.namesAll rest

end

namespace Reference

variable {env env' : Env} {m m' : Bindings} {x y : String} {v : Value}

/-! ### Looking up after a change -/

theorem lookup?_cons (m : Bindings) (env : Env) (x : String) :
    lookup? (m :: env) x = m[x]?.or (lookup? env x) := by
  rw [lookup?]
  split
  · rename_i h
    obtain ⟨v, hv⟩ := Option.isSome_iff_exists.1 (Std.ExtHashMap.isSome_getElem?_iff_mem.2 h)
    rw [hv]
    rfl
  · rename_i h
    rw [Std.ExtHashMap.getElem?_eq_none h]
    rfl

theorem lookup?_define (m : Bindings) (env : Env) (x : String) (v : Value) (y : String) :
    lookup? (define (m :: env) x v) y = if y = x then some v else lookup? (m :: env) y := by
  rw [define, lookup?_cons, lookup?_cons, Std.ExtHashMap.getElem?_insert]
  by_cases h : y = x
  · subst h
    simp
  · rw [if_neg h, if_neg (by simpa using Ne.symm h)]

theorem assign?_eq_none_iff : assign? env x v = none ↔ lookup? env x = none := by
  induction env with
  | nil => simp [assign?, lookup?]
  | cons m env ih =>
    rw [assign?, lookup?]
    split
    · rename_i h
      simpa using h
    · rw [Option.map_eq_none_iff, ih]

theorem lookup?_of_assign? (h : assign? env x v = some env') (y : String) :
    lookup? env' y = if y = x then some v else lookup? env y := by
  induction env generalizing env' with
  | nil => cases h
  | cons m env ih =>
    rw [assign?] at h
    split at h
    · cases h
      exact lookup?_define m env x v y
    · rename_i hx
      obtain ⟨env'', hrest, rfl⟩ := Option.map_eq_some_iff.1 h
      rw [lookup?_cons, lookup?_cons, ih hrest]
      by_cases hy : y = x
      · subst hy
        rw [if_pos rfl, if_pos rfl, Std.ExtHashMap.getElem?_eq_none hx]
        rfl
      · rw [if_neg hy, if_neg hy]

theorem exists_cons_of_assign? (h : assign? (m :: env) x v = some env') :
    ∃ m' outer, env' = m' :: outer := by
  rw [assign?] at h
  split at h
  · cases h
    exact ⟨_, _, rfl⟩
  · obtain ⟨outer, -, rfl⟩ := Option.map_eq_some_iff.1 h
    exact ⟨m, outer, rfl⟩

/-! ### Names that resolve alike -/

/-- The names resolve alike in both lists of maps, also once the maps of blocks that were entered
are dropped: these come in pairs, and the names in a pair are bound alike. -/
inductive Alike (names : List String) : Nat → Env → Env → Prop
  | outside {m m' : Bindings} {env env' : Env}
      (h : ∀ x ∈ names, lookup? (m :: env) x = lookup? (m' :: env') x) :
      Alike names 0 (m :: env) (m' :: env')
  | inside {m m' : Bindings} {env env' : Env} {blocks : Nat} (hm : ∀ x ∈ names, m[x]? = m'[x]?)
      (h : Alike names blocks env env') : Alike names (blocks + 1) (m :: env) (m' :: env')

namespace Alike

variable {names : List String} {blocks : Nat}

theorem lookup? (h : Alike names blocks env env') (hx : x ∈ names) :
    Reference.lookup? env x = Reference.lookup? env' x := by
  induction h with
  | outside h => exact h x hx
  | inside hm _ ih => rw [lookup?_cons, lookup?_cons, hm x hx, ih]

theorem define (h : Alike names blocks env env') (x : String) (v : Value) :
    Alike names blocks (Reference.define env x v) (Reference.define env' x v) := by
  cases h with
  | @outside m m' env env' h =>
    refine .outside fun y hy => ?_
    show Reference.lookup? (Reference.define (m :: env) x v) y
      = Reference.lookup? (Reference.define (m' :: env') x v) y
    rw [lookup?_define, lookup?_define, h y hy]
  | inside hm h =>
    refine .inside (fun y hy => ?_) h
    rw [Std.ExtHashMap.getElem?_insert, Std.ExtHashMap.getElem?_insert, hm y hy]

theorem enter (h : Alike names blocks env env') :
    Alike names (blocks + 1) (∅ :: env) (∅ :: env') :=
  .inside (fun _ _ => rfl) h

/-- The maps of a block are dropped in pairs. -/
theorem leave (h : Alike names (blocks + 1) (m :: env) env') :
    ∃ m' outer, env' = m' :: outer ∧ Alike names blocks env outer := by
  cases h with
  | inside _ h => exact ⟨_, _, rfl, h⟩

theorem assign?_eq_none_iff (h : Alike names blocks env env') (hx : x ∈ names) :
    assign? env x v = none ↔ assign? env' x v = none := by
  rw [Reference.assign?_eq_none_iff, Reference.assign?_eq_none_iff, h.lookup? hx]

/-- An assignment may hit maps of different depth, but in the same block or outside of all. -/
theorem assign? (h : Alike names blocks env env') (hx : x ∈ names) {after : Env}
    (ha : Reference.assign? env x v = some after) :
    ∃ after', Reference.assign? env' x v = some after' ∧ Alike names blocks after after' := by
  induction h generalizing after with
  | @outside m m' env env' h =>
    cases ha' : Reference.assign? (m' :: env') x v with
    | none =>
      rw [← (Alike.outside h).assign?_eq_none_iff hx, ha] at ha'
      cases ha'
    | some after' =>
      have hleft := lookup?_of_assign? ha
      have hright := lookup?_of_assign? ha'
      obtain ⟨n, outer, rfl⟩ := exists_cons_of_assign? ha
      obtain ⟨n', outer', rfl⟩ := exists_cons_of_assign? ha'
      refine ⟨_, rfl, .outside fun y hy => ?_⟩
      rw [hleft, hright, h y hy]
  | @inside m m' env env' blocks hm h ih =>
    have hmem : x ∈ m ↔ x ∈ m' := by
      rw [Std.ExtHashMap.mem_iff_isSome_getElem?, Std.ExtHashMap.mem_iff_isSome_getElem?, hm x hx]
    rw [Reference.assign?] at ha ⊢
    by_cases hxm : x ∈ m
    · rw [if_pos hxm] at ha
      rw [if_pos (hmem.1 hxm)]
      cases ha
      exact ⟨_, rfl, (Alike.inside hm h).define x v⟩
    · rw [if_neg hxm] at ha
      rw [if_neg (mt hmem.2 hxm)]
      obtain ⟨outer, hrest, rfl⟩ := Option.map_eq_some_iff.1 ha
      obtain ⟨outer', hrest', h'⟩ := ih hrest
      exact ⟨_, by rw [hrest']; rfl, .inside hm h'⟩

end Alike

/-! ### Two runs -/

variable {names : List String} {blocks : Nat}

theorem Evaluates.alike {e : Expr} {r : Except Failure Value} {after : Env}
    (he : Evaluates env e r after) (h : Alike names blocks env env') (hn : e.names ⊆ names) :
    ∃ after', Evaluates env' e r after' ∧ Alike names blocks after after' := by
  induction he generalizing env' with
  | literal v => exact ⟨env', .literal v, h⟩
  | group he ih =>
    obtain ⟨after', he', h'⟩ := ih h hn
    exact ⟨after', .group he', h'⟩
  | name hv =>
    rw [h.lookup? (hn List.mem_cons_self)] at hv
    exact ⟨env', .name hv, h⟩
  | undefinedName hv =>
    rw [h.lookup? (hn List.mem_cons_self)] at hv
    exact ⟨env', .undefinedName hv, h⟩
  | unary he ho ih =>
    obtain ⟨after', he', h'⟩ := ih h hn
    exact ⟨after', .unary he' ho, h'⟩
  | unaryFails he ih =>
    obtain ⟨after', he', h'⟩ := ih h hn
    exact ⟨after', .unaryFails he', h'⟩
  | binary hl hr ho ihl ihr =>
    obtain ⟨hnl, hnr⟩ := List.append_subset.1 hn
    obtain ⟨between', hl', h⟩ := ihl h hnl
    obtain ⟨after', hr', h⟩ := ihr h hnr
    exact ⟨after', .binary hl' hr' ho, h⟩
  | leftFails hl ihl =>
    obtain ⟨after', hl', h⟩ := ihl h (List.append_subset.1 hn).1
    exact ⟨after', .leftFails hl', h⟩
  | rightFails hl hr ihl ihr =>
    obtain ⟨hnl, hnr⟩ := List.append_subset.1 hn
    obtain ⟨between', hl', h⟩ := ihl h hnl
    obtain ⟨after', hr', h⟩ := ihr h hnr
    exact ⟨after', .rightFails hl' hr', h⟩
  | assign he ha ih =>
    obtain ⟨hx, hn⟩ := List.cons_subset.1 hn
    obtain ⟨between', he', h⟩ := ih h hn
    obtain ⟨after', ha', h⟩ := h.assign? hx ha
    exact ⟨after', .assign he' ha', h⟩
  | assignUndefined he ha ih =>
    obtain ⟨hx, hn⟩ := List.cons_subset.1 hn
    obtain ⟨after', he', h⟩ := ih h hn
    exact ⟨after', .assignUndefined he' ((h.assign?_eq_none_iff hx).1 ha), h⟩
  | assignFails he ih =>
    obtain ⟨after', he', h⟩ := ih h (List.cons_subset.1 hn).2
    exact ⟨after', .assignFails he', h⟩

mutual

theorem Executes.alike {after : Env} {f : Option Failure} {printed : List String} :
    ∀ {stmt : Stmt} {env env' : Env} {blocks : Nat}, Executes env stmt f printed after →
    Alike names blocks env env' → stmt.names ⊆ names →
    ∃ after', Executes env' stmt f printed after' ∧ Alike names blocks after after'
  | _, _, _, _, .expression he, h, hn => by
    obtain ⟨after', he', h'⟩ := he.alike h hn
    exact ⟨after', .expression he', h'⟩
  | _, _, _, _, .expressionFails he, h, hn => by
    obtain ⟨after', he', h'⟩ := he.alike h hn
    exact ⟨after', .expressionFails he', h'⟩
  | _, _, _, _, .print he, h, hn => by
    obtain ⟨after', he', h'⟩ := he.alike h hn
    exact ⟨after', .print he', h'⟩
  | _, _, _, _, .printFails he, h, hn => by
    obtain ⟨after', he', h'⟩ := he.alike h hn
    exact ⟨after', .printFails he', h'⟩
  | _, _, _, _, .declareNil x, h, _ => ⟨_, .declareNil x, h.define x.lexeme .nil⟩
  | _, _, _, _, .declare x he, h, hn => by
    obtain ⟨after', he', h'⟩ := he.alike h (List.cons_subset.1 hn).2
    exact ⟨_, .declare x he', h'.define x.lexeme _⟩
  | _, _, _, _, .declareFails x he, h, hn => by
    obtain ⟨after', he', h'⟩ := he.alike h (List.cons_subset.1 hn).2
    exact ⟨after', .declareFails x he', h'⟩
  | _, _, _, _, .block hb, h, hn => by
    obtain ⟨after', hb', h'⟩ := hb.alike h.enter hn
    obtain ⟨m', outer, rfl, houter⟩ := h'.leave
    exact ⟨outer, .block hb', houter⟩

/-- Statements run alike from maps in which their names resolve alike. -/
theorem ExecutesAll.alike {after : Env} {f : Option Failure} {printed : List String} :
    ∀ {program : List Stmt} {env env' : Env} {blocks : Nat},
    ExecutesAll env program f printed after → Alike names blocks env env' →
    Stmt.namesAll program ⊆ names →
    ∃ after', ExecutesAll env' program f printed after' ∧ Alike names blocks after after'
  | _, _, env', _, .nil, h, _ => ⟨env', .nil, h⟩
  | _, _, _, _, .cons he hr, h, hn => by
    obtain ⟨hns, hnr⟩ := List.append_subset.1 hn
    obtain ⟨between', he', h⟩ := he.alike h hns
    obtain ⟨after', hr', h⟩ := hr.alike h hnr
    exact ⟨after', .cons he' hr', h⟩
  | _, _, _, _, .fails he, h, hn => by
    obtain ⟨after', he', h⟩ := he.alike h (List.append_subset.1 hn).1
    exact ⟨after', .fails he', h⟩

end

end Reference

namespace Interpreter

open Reference

/-- What a name resolves to from the current scope. -/
def resolve? (s : Interpreter) (x : String) : Option Value :=
  s.scopes.get? s.current x

theorem resolve?_eq (s : Interpreter) (x : String) : s.resolve? x = lookup? s.maps x :=
  Scopes.get?_eq_lookup? s.scopes s.current x

variable {s s' : Interpreter}

theorem exists_maps_eq_cons (h : s.Linked) : ∃ m env, s.maps = m :: env := by
  obtain ⟨outer, hc⟩ := Scopes.chain_eq_cons h.opened
  exact ⟨_, _, by rw [maps, Scopes.maps, hc, List.map_cons]⟩

theorem alike_of_resolve (hs : s.Linked) (hs' : s'.Linked) {names : List String}
    (h : ∀ x ∈ names, s.resolve? x = s'.resolve? x) : Alike names 0 s.maps s'.maps := by
  have hlookup : ∀ x ∈ names, lookup? s.maps x = lookup? s'.maps x := by
    intro x hx
    rw [← resolve?_eq, ← resolve?_eq, h x hx]
  obtain ⟨m, env, hm⟩ := exists_maps_eq_cons hs
  obtain ⟨m', env', hm'⟩ := exists_maps_eq_cons hs'
  rw [hm, hm'] at hlookup ⊢
  exact .outside hlookup

/-- An empty scope in front hides nothing. -/
theorem resolve?_enter (hs : s.Linked) (x : String) : s.enter.resolve? x = s.resolve? x := by
  rw [resolve?_eq, resolve?_eq, maps_enter hs, lookup?_cons, Std.ExtHashMap.getElem?_empty]
  rfl

/-- What a program prints and the token and the words of its fault are the same from two chains in
which its names resolve alike, and so is what they resolve to afterwards. -/
theorem execAll_alike (program : List Stmt) (hs : s.Linked) (hs' : s'.Linked)
    (h : ∀ x ∈ Stmt.namesAll program, s.resolve? x = s'.resolve? x) :
    let r := Stmt.execAll program s
    let r' := Stmt.execAll program s'
    r.printed = r'.printed ∧ r.fault.map Fault.failure = r'.fault.map Fault.failure
      ∧ ∀ x ∈ Stmt.namesAll program, r.after.resolve? x = r'.after.resolve? x := by
  obtain ⟨hr, -⟩ := Stmt.follows_execAll program hs
  obtain ⟨hr', -⟩ := Stmt.follows_execAll program hs'
  obtain ⟨after', hrule, halike⟩ :=
    hr.alike (alike_of_resolve hs hs' h) (List.Subset.refl (Stmt.namesAll program))
  obtain ⟨hfault, hprinted, hafter⟩ := hrule.unique hr'
  refine ⟨hprinted, hfault, fun x hx => ?_⟩
  rw [resolve?_eq, resolve?_eq, ← hafter]
  exact halike.lookup? hx

/-- From two chains in which each name of a program resolves alike, the program prints the same
lines and ends in the same token and words of a fault or in none, and its names resolve alike
afterwards. So it does in a block as it does outside. -/
theorem execAll_of_resolve (hs : s.Linked) (hs' : s'.Linked) {program : List Stmt}
    (h : ∀ x ∈ Stmt.namesAll program, s.resolve? x = s'.resolve? x) :
    let r := Stmt.execAll program s
    let r' := Stmt.execAll program s'
    let inBlock := Stmt.execAll [.block program] s
    (r.printed = r'.printed ∧ r.fault.map Fault.failure = r'.fault.map Fault.failure
        ∧ ∀ x ∈ Stmt.namesAll program, r.after.resolve? x = r'.after.resolve? x)
      ∧ inBlock.printed = r.printed
      ∧ inBlock.fault.map Fault.failure = r.fault.map Fault.failure := by
  refine ⟨execAll_alike program hs hs' h, ?_⟩
  obtain ⟨hprinted, hfault, -⟩ :=
    execAll_alike program (linked_enter hs) hs fun x _ => resolve?_enter hs x
  rw [Stmt.execAll_singleton, Stmt.exec]
  exact ⟨hprinted, hfault⟩

/-- In the two runs the name is assigned to in scopes of different depth. -/
theorem execAll_of_resolve_depth :
    let x := Token.ident "x" 1
    let program := [.expression (.assign x (.literal (.bool true))), .print (.name x),
      .print (.name (Token.ident "y" 2))]
    let s := fresh.define "x" .nil
    let r := Stmt.execAll program s
    let r' := Stmt.execAll program s.enter
    s.Linked ∧ s.enter.Linked ∧ (∀ x ∈ Stmt.namesAll program, s.resolve? x = s.enter.resolve? x)
      ∧ r.printed = r'.printed ∧ r.fault.map Fault.failure = r'.fault.map Fault.failure
      ∧ r.after.resolve? "x" = r'.after.resolve? "x" := by
  intro x program s r r'
  have hs : s.Linked := linked_fresh.of_frame (define_spec linked_fresh "x" .nil).2
  have henter : s.enter.Linked := linked_enter hs
  have hresolve : ∀ x ∈ Stmt.namesAll program, s.resolve? x = s.enter.resolve? x :=
    fun x _ => (resolve?_enter hs x).symm
  obtain ⟨⟨hprinted, hfault, hafter⟩, -⟩ := execAll_of_resolve hs henter hresolve
  exact ⟨hs, henter, hresolve, hprinted, hfault, hafter "x" List.mem_cons_self⟩

end Interpreter

end Scriptlet
