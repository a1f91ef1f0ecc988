import Mathlib.Data.Set.Basic
import Scriptlet.Proofs.Resolution

/-!
# Undefined names are a matter of the text

Which name a program is stopped at for being undefined can be read off the program and the names
that are visible when it starts. An occurrence of a name is resolved if the name is visible at the
start, or declared earlier in the statements around it. Where all are resolved, no run is stopped
at an undefined name; where a run ends well, all are; and a run that is stopped at an undefined name
is stopped at the first occurrence that is not (`Interpreter.execAll_undefined`).

The maps of a running program hold exactly the names that the text run so far has declared
(`Reference.Executes.domains_eq`).
-/

namespace Scriptlet

/-! ### Occurrences -/

/-- A name that is looked up or assigned to, with the names declared before it, in its own list of
statements or in one around it. -/
structure Occurrence where
  token : Token
  declared : List String

/-- The occurrences of names in an expression, in the order of evaluation. -/
def Expr.occurrences (declared : List String) : Expr → List Occurrence
  | literal _ => []
  | group inner => inner.occurrences declared
  | unary _ right => right.occurrences declared
  | binary left _ right => left.occurrences declared ++ right.occurrences declared
  | name token => [⟨token, declared⟩]
  | assign target value => value.occurrences declared ++ [⟨target, declared⟩]

/-- The names that a statement declares in the list that it is in. -/
def Stmt.declared : Stmt → List String
  | declare name _ => [name.lexeme]
  | _ => []

mutual

/-- The occurrences of names in a statement, in the order of evaluation. An initial value comes
before its declaration. -/
def Stmt.occurrences (declared : List String) : Stmt → List Occurrence
  | expression e => e.occurrences declared
  | print e => e.occurrences declared
  | block body => Stmt.occurrencesAll declared body
  | declare _ none => []
  | declare _ (some e) => e.occurrences declared

def Stmt.occurrencesAll (declared : List String) : List Stmt → List Occurrence
  | [] => []
  | stmt :: rest =>
    stmt.occurrences declared ++ Stmt.occurrencesAll (stmt.declared ++ declared) rest

end

/-- The name is visible from the start or declared earlier. -/
def Occurrence.Resolved (visible : Set String) (o : Occurrence) : Prop :=
  o.token.lexeme ∈ visible ∨ o.token.lexeme ∈ o.declared

/-- The first occurrence that is not resolved is that of the token. -/
def FirstUnresolved (visible : Set String) (occurrences : List Occurrence) (token : Token) : Prop :=
  ∃ before o after, occurrences = before ++ o :: after ∧ (∀ p ∈ before, p.Resolved visible)
    ∧ ¬ o.Resolved visible ∧ o.token = token

namespace Reference

variable {env env' : Env} {x : String} {v : Value}

/-! ### The names that maps hold -/

/-- The names that each map holds. -/
def domains (env : Env) : List (Set String) :=
  env.map fun m => {x | x ∈ m}

/-- The same with more names in the head. -/
def declaring (names : List String) : List (Set String) → List (Set String)
  | [] => []
  | head :: outer => (head ∪ {x | x ∈ names}) :: outer

theorem declaring_nil (domains : List (Set String)) : declaring [] domains = domains := by
  cases domains with
  | nil => rfl
  | cons head outer => simp [declaring]

theorem declaring_declaring (names later : List String) (domains : List (Set String)) :
    declaring later (declaring names domains) = declaring (names ++ later) domains := by
  cases domains with
  | nil => rfl
  | cons head outer =>
    simp only [declaring, List.mem_append, Set.union_assoc]
    rfl

theorem domains_define (env : Env) (x : String) (v : Value) :
    domains (define env x v) = declaring [x] (domains env) := by
  cases env with
  | nil => rfl
  | cons m env =>
    simp only [define, domains, declaring, List.map_cons, List.cons.injEq, and_true]
    ext y
    simp only [Set.mem_ofPred_eq, Set.mem_union, Std.ExtHashMap.mem_insert, beq_iff_eq,
      List.mem_singleton]
    rw [or_comm, eq_comm]

theorem domains_assign? (h : assign? env x v = some env') : domains env' = domains env := by
  induction env generalizing env' with
  | nil => cases h
  | cons m env ih =>
    rw [assign?] at h
    split at h
    · rename_i hx
      cases h
      simp only [domains, List.map_cons, List.cons.injEq, and_true]
      ext y
      simp only [Set.mem_ofPred_eq, Std.ExtHashMap.mem_insert, beq_iff_eq, or_iff_right_iff_imp]
      rintro rfl
      exact hx
    · obtain ⟨outer, hrest, rfl⟩ := Option.map_eq_some_iff.1 h
      exact congrArg (_ :: ·) (ih hrest)

theorem isSome_lookup?_iff : (lookup? env x).isSome ↔ ∃ names ∈ domains env, x ∈ names := by
  induction env with
  | nil => simp [lookup?, domains]
  | cons m env ih =>
    rw [lookup?_cons, Option.isSome_or, Bool.or_eq_true, ih, Std.ExtHashMap.isSome_getElem?_iff_mem]
    simp [domains]

/-- An expression declares nothing. -/
theorem Evaluates.domains_eq {e : Expr} {r : Except Failure Value} (h : Evaluates env e r env') :
    domains env' = domains env := by
  induction h with
  | literal | name | undefinedName => rfl
  | group _ ih | unary _ _ ih | unaryFails _ ih | leftFails _ ih | assignUndefined _ _ ih
  | assignFails _ ih => exact ih
  | binary _ _ _ ihl ihr | rightFails _ _ ihl ihr => exact ihr.trans ihl
  | assign _ ha ih => exact (domains_assign? ha).trans ih

mutual

/-- A statement that ends well adds the names that it declares to the innermost map. -/
theorem Executes.domains_eq : ∀ {stmt : Stmt} {env env' : Env} {printed : List String},
    Executes env stmt none printed env' → domains env' = declaring stmt.declared (domains env)
  | _, _, _, _, .expression he | _, _, _, _, .print he =>
    he.domains_eq.trans (declaring_nil _).symm
  | _, env, _, _, .declareNil x => domains_define env x.lexeme .nil
  | _, _, _, _, .declare x he => by
    rw [domains_define, he.domains_eq]
    rfl
  | _, _, _, _, .block hb => by
    -- What the body declares goes with the map of the block.
    have hbody := hb.domains_eq
    exact (List.cons.inj hbody).2.trans (declaring_nil _).symm

theorem ExecutesAll.domains_eq : ∀ {program : List Stmt} {env env' : Env} {printed : List String},
    ExecutesAll env program none printed env' →
    domains env' = declaring (program.flatMap Stmt.declared) (domains env)
  | _, _, _, _, .nil => (declaring_nil _).symm
  | _, _, _, _, .cons h hr => by
    rw [hr.domains_eq, h.domains_eq, declaring_declaring]
    rfl

end

/-! ### What is visible while a program runs -/

/-- Visible are the names that were so at the start and those declared since. -/
structure Sees (visible : Set String) (declared : List String) (env : Env) : Prop where
  ne_nil : env ≠ []
  isSome_iff : ∀ x, (lookup? env x).isSome ↔ x ∈ visible ∨ x ∈ declared

variable {visible : Set String} {declared : List String}

namespace Sees

theorem of_domains {names : List String} (h : Sees visible declared env)
    (hd : domains env' = declaring names (domains env)) :
    Sees visible (names ++ declared) env' := by
  obtain ⟨m, outer, rfl⟩ := List.exists_cons_of_ne_nil h.ne_nil
  constructor
  · rintro rfl
    cases hd
  · intro y
    have hy := h.isSome_iff y
    rw [isSome_lookup?_iff] at hy ⊢
    rw [hd]
    simp only [domains, declaring, List.map_cons, List.mem_cons, exists_eq_or_imp,
      List.mem_append, Set.mem_union, Set.mem_ofPred_eq] at hy ⊢
    rw [or_right_comm, hy, or_assoc, or_comm (a := y ∈ names)]

theorem evaluates {e : Expr} {r : Except Failure Value} (h : Sees visible declared env)
    (he : Evaluates env e r env') : Sees visible declared env' :=
  of_domains h (he.domains_eq.trans (declaring_nil _).symm)

theorem enter (h : Sees visible declared env) : Sees visible declared (∅ :: env) := by
  refine ⟨List.cons_ne_nil _ _, fun y => ?_⟩
  rw [← h.isSome_iff, lookup?_cons, Std.ExtHashMap.getElem?_empty, Option.none_or]

end Sees

/-! ### Resolved and reported -/

/-- A run that ends well has met resolved occurrences only; one that fails for an undefined name
has met the first that is not. -/
def Accounts (visible : Set String) (occurrences : List Occurrence) : Option Failure → Prop
  | none => ∀ o ∈ occurrences, o.Resolved visible
  | some f => ∀ t, f = undefined t → FirstUnresolved visible occurrences t

namespace Accounts

variable {before occurrences : List Occurrence} {f : Option Failure}

theorem of_some {g : Failure} (h : Accounts visible before (some g))
    (occurrences : List Occurrence) : Accounts visible (before ++ occurrences) (some g) := by
  intro t ht
  obtain ⟨first, o, after, rfl, hfirst, ho, rfl⟩ := h t ht
  exact ⟨first, o, after ++ occurrences, by simp, hfirst, ho, rfl⟩

theorem append (hb : Accounts visible before none) (h : Accounts visible occurrences f) :
    Accounts visible (before ++ occurrences) f := by
  cases f with
  | none =>
    intro o ho
    exact (List.mem_append.1 ho).elim (hb o) (h o)
  | some f =>
    intro t ht
    obtain ⟨first, o, after, rfl, hfirst, ho, rfl⟩ := h t ht
    refine ⟨before ++ first, o, after, (List.append_assoc _ _ _).symm, fun p hp => ?_, ho, rfl⟩
    exact (List.mem_append.1 hp).elim (hb p) (hfirst p)

theorem resolved (h : Sees visible declared env) {t : Token}
    (ht : lookup? env t.lexeme ≠ none) : Accounts visible [⟨t, declared⟩] none := by
  intro o ho
  rw [List.mem_singleton.1 ho]
  exact (h.isSome_iff t.lexeme).1 (Option.isSome_iff_ne_none.2 ht)

theorem unresolved (h : Sees visible declared env) {t : Token}
    (ht : lookup? env t.lexeme = none) : Accounts visible [⟨t, declared⟩] (some (undefined t)) := by
  intro u hu
  refine ⟨[], ⟨t, declared⟩, [], rfl, by simp, fun hr => ?_, congrArg Failure.token hu⟩
  have hsome := (h.isSome_iff t.lexeme).2 hr
  rw [ht] at hsome
  cases hsome

end Accounts

/-- The failure that an expression ends in, if any. -/
def failure? : Except Failure Value → Option Failure
  | .ok _ => none
  | .error f => some f

/-! ### The words of an operator -/

theorem ne_message_undefined {message : String} (h : message.toList.take 3 ≠ ['U', 'n', 'd'])
    (t : Token) : message ≠ (undefined t).message := by
  rintro rfl
  refine h ?_
  simp only [undefined, String.toList_append]
  rfl

/-- An operator never blames an undefined name. -/
theorem Unary.ne_undefined {o : Token} {v : Value} {message : String}
    (h : Unary o v (.error message)) (t : Token) : message ≠ (undefined t).message := by
  refine ne_message_undefined ?_ t
  cases h with
  | notNumber => decide
  | unknown =>
    rw [String.toList_append, String.toList_append]
    show ['U', 'n', 'k'] ≠ _
    decide

theorem Binary.ne_undefined {o : Token} {v w : Value} {message : String}
    (h : Binary o v w (.error message)) (t : Token) : message ≠ (undefined t).message := by
  refine ne_message_undefined ?_ t
  cases h with
  | notAddable | zeroDivisor | notNumbers => decide
  | unknown =>
    rw [String.toList_append, String.toList_append]
    show ['U', 'n', 'k'] ≠ _
    decide

theorem Accounts.blame {occurrences : List Occurrence} (h : Accounts visible occurrences none)
    {o : Token} {r : Except String Value}
    (hr : ∀ message, r = .error message → ∀ t, message ≠ (undefined t).message) :
    Accounts visible occurrences (failure? (blame o r)) := by
  cases r with
  | ok v => exact h
  | error message =>
    intro t ht
    exact absurd (congrArg Failure.message ht) (hr message rfl t)

/-! ### Runs -/

/-- The step for expressions. -/
theorem Evaluates.accounts {e : Expr} {r : Except Failure Value} (he : Evaluates env e r env')
    (h : Sees visible declared env) :
    Accounts visible (e.occurrences declared) (failure? r) := by
  induction he with
  | literal v =>
    intro o ho
    cases ho
  | group _ ih | unaryFails _ ih => exact ih h
  | name hv => exact .resolved h (by simp [hv])
  | undefinedName hv => exact .unresolved h hv
  | unary _ ho ih => exact (ih h).blame fun _ hr => (hr ▸ ho).ne_undefined
  | binary hl _ ho ihl ihr =>
    exact ((ihl h).append (ihr (h.evaluates hl))).blame fun _ hr => (hr ▸ ho).ne_undefined
  | leftFails _ ihl => exact (ihl h).of_some _
  | rightFails hl _ ihl ihr => exact (ihl h).append (ihr (h.evaluates hl))
  | assign he ha ih =>
    refine (ih h).append (.resolved (h.evaluates he) fun hnone => ?_)
    rw [assign?_eq_none_iff.2 hnone] at ha
    cases ha
  | assignUndefined he ha ih =>
    exact (ih h).append (.unresolved (h.evaluates he) (assign?_eq_none_iff.1 ha))
  | assignFails _ ih => exact (ih h).of_some _

mutual

theorem Executes.accounts {f : Option Failure} : ∀ {stmt : Stmt} {env env' : Env}
    {declared printed : List String}, Executes env stmt f printed env' →
    Sees visible declared env → Accounts visible (stmt.occurrences declared) f
  | _, _, _, _, _, .expression he, h | _, _, _, _, _, .expressionFails he, h
  | _, _, _, _, _, .print he, h | _, _, _, _, _, .printFails he, h
  | _, _, _, _, _, .declare _ he, h | _, _, _, _, _, .declareFails _ he, h => he.accounts h
  | _, _, _, _, _, .declareNil _, _ => fun _ ho => nomatch ho
  | _, _, _, _, _, .block hb, h => hb.accounts h.enter

theorem ExecutesAll.accounts {f : Option Failure} : ∀ {program : List Stmt} {env env' : Env}
    {declared printed : List String}, ExecutesAll env program f printed env' →
    Sees visible declared env → Accounts visible (Stmt.occurrencesAll declared program) f
  | _, _, _, _, _, .nil, _ => fun _ ho => nomatch ho
  | _, _, _, _, _, .cons he hr, h =>
    (he.accounts h).append (hr.accounts (h.of_domains he.domains_eq))
  | _, _, _, _, _, .fails he, h => (he.accounts h).of_some _

end

end Reference

namespace Interpreter

open Reference

variable {s : Interpreter}

/-- The names that resolve to a value. -/
def visible (s : Interpreter) : Set String :=
  {x | (s.resolve? x).isSome}

theorem sees_visible (hs : s.Linked) : Sees s.visible [] s.maps := by
  obtain ⟨m, outer, hm⟩ := exists_maps_eq_cons hs
  refine ⟨by simp [hm], fun x => ?_⟩
  rw [← resolve?_eq]
  simp [visible]

/-- A program all of whose names are resolved never stops at an undefined name; one that ends well
has all its names resolved; and one that stops at an undefined name stops at the first that is not
resolved. -/
theorem execAll_undefined (hs : s.Linked) (program : List Stmt) :
    let occurrences := Stmt.occurrencesAll [] program
    let fault := (Stmt.execAll program s).fault
    ((∀ o ∈ occurrences, o.Resolved s.visible) →
        ∀ f ∈ fault, f.failure ≠ undefined f.token)
      ∧ (fault = none → ∀ o ∈ occurrences, o.Resolved s.visible)
      ∧ ∀ f ∈ fault, f.failure = undefined f.token →
        FirstUnresolved s.visible occurrences f.token := by
  intro occurrences fault
  have haccounts : Accounts s.visible occurrences (fault.map Fault.failure) :=
    (Stmt.follows_execAll program hs).1.accounts (sees_visible hs)
  have hfirst : ∀ f ∈ fault, f.failure = undefined f.token →
      FirstUnresolved s.visible occurrences f.token := by
    intro f hf
    rw [Option.mem_def.1 hf] at haccounts
    exact haccounts f.token
  refine ⟨fun hall f hf hundefined => ?_, fun hnone => ?_, hfirst⟩
  · obtain ⟨before, o, after, heq, -, ho, -⟩ := hfirst f hf hundefined
    exact ho (hall o (by simp [heq]))
  · rw [hnone] at haccounts
    exact haccounts

/-- The initial value of a declaration does not see the name that it declares, nor one declared in
a block that was left. -/
theorem execAll_undefined_initial :
    let a := Token.ident "a" 1
    let b := Token.ident "b" 2
    let program := [.block [.declare a none, .print (.name a)], .declare b (some (.name b))]
    let fault := (Stmt.execAll program fresh).fault
    fresh.Linked ∧ fault = some ⟨b, .undefinedName⟩
      ∧ FirstUnresolved fresh.visible [⟨a, ["a"]⟩, ⟨b, []⟩] b := by
  intro a b program fault
  have hfault : fault = some ⟨b, .undefinedName⟩ := by
    unfold fault program a b
    cbv
  exact ⟨linked_fresh, hfault,
    (execAll_undefined linked_fresh program).2.2 ⟨b, .undefinedName⟩ hfault rfl⟩

end Interpreter

end Scriptlet
