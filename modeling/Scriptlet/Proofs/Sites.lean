import Scriptlet.Interpreter.Execution
import Scriptlet.Proofs.Derivation

/-!
# Where errors and faults are

A syntax error is at one of the tokens that are read, or at their end (`Stmt.sited_parseAll`). A
fault is at an operator or a name of the program (`Stmt.mem_sitesAll_of_fault`), and in a program
that is read without errors these are tokens of the source (`Grammar.mem_sitesAll_parseAll`).
-/

namespace Scriptlet

/-! ### Errors -/

namespace Reading

variable {α β : Type} {tokens whole : List Token}

/-- Every error is at one of the tokens `whole`, or at their end. -/
def Sited (whole : List Token) (r : Reading tokens α) : Prop :=
  ∀ e ∈ r.errors, e.site <:+ whole

theorem sited_of_errors {r : Reading tokens α} (h : r.errors = []) : r.Sited whole := by
  intro e he
  rw [h] at he
  exact absurd he List.not_mem_nil

theorem sited_done (a : α) : (done a : Attempt tokens α).Sited whole :=
  sited_of_errors rfl

theorem sited_fail (cause : SyntaxError.Cause) : (fail cause : Attempt tokens α).Sited whole :=
  sited_of_errors rfl

theorem sited_expect (kind : Kind) (cause : SyntaxError.Cause) (tokens : List Token) :
    (expect kind cause tokens).Sited whole := by
  cases tokens with
  | nil => exact sited_fail cause
  | cons t after =>
    simp only [expect]
    split
    · exact sited_of_errors rfl
    · exact sited_fail cause

theorem Sited.past {t : Token} {r : Reading tokens α} (h : r.Sited whole) :
    (r.past : Reading (t :: tokens) α).Sited whole :=
  h

theorem Sited.bind {r : Reading tokens α}
    {f : α → (rest : List Token) → rest <:+ tokens → Reading rest β} (h : r.Sited whole)
    (hf : ∀ a rest (hs : rest <:+ tokens), (f a rest hs).Sited whole) :
    (r.bind f).Sited whole := by
  intro e he
  rcases List.mem_append.1 he with he | he
  · exact h e he
  · exact hf _ _ _ e he

theorem Sited.andThen {r : Attempt tokens α}
    {f : α → (rest : List Token) → rest <:+ tokens → Attempt rest β} (h : r.Sited whole)
    (hf : ∀ a rest (hs : rest <:+ tokens), (f a rest hs).Sited whole) :
    (r.andThen f).Sited whole := by
  refine h.bind fun a rest hs => ?_
  cases a with
  | ok a => exact hf a rest hs
  | error cause => exact sited_fail cause

/-- A part and one token more. -/
theorem Sited.andThen_expect {r : Attempt tokens α} {kind : Kind} {cause : SyntaxError.Cause}
    {f : α → β} (h : r.Sited whole) :
    (r.andThen fun a rest _ =>
      (expect kind cause rest).andThen fun _ _ _ => done (f a)).Sited whole :=
  h.andThen fun a rest _ => (sited_expect kind cause rest).andThen fun _ _ _ => sited_done (f a)

theorem Sited.recover {r : Attempt tokens α} (h : r.Sited whole) (hw : tokens <:+ whole) :
    r.recover.Sited whole := by
  rcases hr : r.value with cause | a
  · rw [recover_of_error hr]
    intro e he
    rcases List.mem_append.1 he with he | he
    · exact h e he
    · rw [List.mem_singleton.1 he]
      exact r.suffix.trans hw
  · rw [recover_of_ok hr]
    exact h

end Reading

namespace Expr

open Reading

variable {whole : List Token}

theorem sited_assignTo {target value : Expr} {equals : Token} {after rest : List Token}
    (h : equals :: after <:+ whole) :
    (assignTo target equals after value : Attempt rest Expr).Sited whole := by
  cases target with
  | name t => exact sited_done _
  | _ =>
    intro e he
    rw [List.mem_singleton.1 he]
    exact h

mutual

theorem sited_parse (tokens : List Token) (h : tokens <:+ whole) :
    (parse tokens).Sited whole := by
  rw [parse]
  refine (sited_parseLevels levels tokens h).andThen fun target rest hs => ?_
  have hle := hs.length_le
  match rest, hs, hle with
  | [], _, _ => exact sited_done target
  | equals :: after, hs, hle =>
    simp only
    split
    · have hlt : after.length < tokens.length := hle
      have hafter := (List.suffix_cons equals after).trans (hs.trans h)
      exact ((sited_parse after hafter).andThen fun _ _ _ => sited_assignTo (hs.trans h)).past
    · exact sited_done target
termination_by (tokens.length, 2 * levels.length + 4)

theorem sited_parseLevels : ∀ (ops : List (List Kind)) (tokens : List Token),
    tokens <:+ whole → (parseLevels ops tokens).Sited whole
  | [], tokens, h => by
    rw [parseLevels]
    exact sited_parseOperand tokens h
  | level :: tighter, tokens, h => by
    rw [parseLevels]
    refine (sited_parseLevels tighter tokens h).andThen fun left rest hs => ?_
    have hle := hs.length_le
    exact sited_parseMore level tighter left rest (hs.trans h)
termination_by ops tokens => (tokens.length, 2 * ops.length + 1)
decreasing_by
  all_goals simp_wf
  all_goals simp [Prod.lex_def]
  all_goals omega

theorem sited_parseMore (level : List Kind) (tighter : List (List Kind)) :
    ∀ (left : Expr) (tokens : List Token), tokens <:+ whole →
    (parseMore level tighter left tokens).Sited whole
  | left, [], _ => by
    rw [parseMore]
    exact sited_done left
  | left, operator :: after, h => by
    have hafter := (List.suffix_cons operator after).trans h
    rw [parseMore]
    split
    · refine Sited.past ((sited_parseLevels tighter after hafter).andThen fun right rest hs => ?_)
      have hlt : rest.length < (operator :: after).length := Nat.lt_succ_of_le hs.length_le
      exact sited_parseMore level tighter (.binary left operator right) rest (hs.trans hafter)
    · exact sited_done left
termination_by _ tokens => (tokens.length, 2 * tighter.length + 2)

theorem sited_parseOperand : ∀ tokens : List Token, tokens <:+ whole →
    (parseOperand tokens).Sited whole
  | [], _ => by
    rw [parseOperand]
    exact sited_fail _
  | t :: after, h => by
    have hafter := (List.suffix_cons t after).trans h
    rw [parseOperand]
    split
    case h_1 | h_2 =>
      exact ((sited_parseOperand after hafter).andThen fun _ _ _ => sited_done _).past
    case h_9 => exact (sited_parse after hafter).andThen_expect.past
    case h_10 => exact sited_fail _
    all_goals exact sited_of_errors rfl
termination_by tokens => (tokens.length, 0)

end

end Expr

namespace Stmt

open Reading

variable {whole : List Token}

theorem sited_parseInitial (tokens : List Token) (h : tokens <:+ whole) :
    (parseInitial tokens).Sited whole := by
  cases tokens with
  | nil => exact sited_done none
  | cons equals after =>
    have hafter := (List.suffix_cons equals after).trans h
    simp only [parseInitial]
    split
    · exact ((Expr.sited_parse after hafter).andThen fun _ _ _ => sited_done _).past
    · exact sited_done none

theorem sited_parseDeclaration (tokens : List Token) (h : tokens <:+ whole) :
    (parseDeclaration tokens).Sited whole := by
  rw [parseDeclaration]
  refine (sited_expect _ _ tokens).andThen fun name rest hs => ?_
  exact (sited_parseInitial rest (hs.trans h)).andThen_expect

mutual

theorem sited_parse (t : Token) (after : List Token) (h : t :: after <:+ whole) :
    (parse t after).Sited whole := by
  have hafter := (List.suffix_cons t after).trans h
  rw [parse]
  split
  · exact (sited_parseDeclaration after hafter).recover hafter
  split
  · exact (Expr.sited_parse after hafter).andThen_expect.recover hafter
  split
  · exact ((sited_parseBlock after hafter).andThen fun _ _ _ => sited_done _).recover hafter
  · exact (Expr.sited_parse (t :: after) h).andThen_expect.recover h
termination_by (after.length, 1)

theorem sited_parseBlock : ∀ tokens : List Token, tokens <:+ whole →
    (parseBlock tokens).Sited whole
  | [], _ => by
    rw [parseBlock]
    exact sited_fail _
  | t :: after, h => by
    have hafter := (List.suffix_cons t after).trans h
    rw [parseBlock]
    split
    · exact sited_of_errors rfl
    · refine Sited.past ((sited_parse t after h).bind fun s? rest hs => ?_)
      have hlt : rest.length < (t :: after).length := Nat.lt_succ_of_le hs.length_le
      exact (sited_parseBlock rest (hs.trans hafter)).andThen fun _ _ _ => sited_done _
termination_by tokens => (tokens.length, 0)

end

theorem sited_parseAll : ∀ tokens : List Token, tokens <:+ whole → (parseAll tokens).Sited whole
  | [], _ => by
    rw [parseAll]
    exact sited_of_errors rfl
  | t :: after, h => by
    have hafter := (List.suffix_cons t after).trans h
    rw [parseAll]
    refine Sited.past ((sited_parse t after h).bind fun s? rest hs => ?_)
    have hlt : rest.length < (t :: after).length := Nat.lt_succ_of_le hs.length_le
    exact (sited_parseAll rest (hs.trans hafter)).bind fun _ _ _ => sited_of_errors rfl
termination_by tokens => tokens.length
decreasing_by exact hlt

end Stmt

/-! ### Faults -/

/-- The operators and names of an expression, where faults can be. -/
def Expr.sites : Expr → List Token
  | literal _ => []
  | group inner => inner.sites
  | unary operator right => operator :: right.sites
  | binary left operator right => left.sites ++ operator :: right.sites
  | name token => [token]
  | assign target value => target :: value.sites

mutual

/-- The operators and names in the expressions of a statement. -/
def Stmt.sites : Stmt → List Token
  | expression e => e.sites
  | print e => e.sites
  | block body => Stmt.sitesAll body
  | declare _ none => []
  | declare _ (some e) => e.sites

def Stmt.sitesAll : List Stmt → List Token
  | [] => []
  | stmt :: rest => stmt.sites ++ Stmt.sitesAll rest

end

namespace Evaluation

variable {α β : Type}

/-- Every fault of the evaluation has the property. -/
def FaultsOnly (p : Fault → Prop) (x : Evaluation α) : Prop :=
  ∀ s fault s', x s = .error fault s' → p fault

variable {p q : Fault → Prop} {x : Evaluation α}

theorem FaultsOnly.mono (h : FaultsOnly p x) (hpq : ∀ fault, p fault → q fault) :
    FaultsOnly q x :=
  fun s fault s' he => hpq fault (h s fault s' he)

theorem faultsOnly_pure (a : α) : FaultsOnly p (pure a : Evaluation α) := by
  intro s fault s' h
  cases h

theorem FaultsOnly.bind {f : α → Evaluation β} (h : FaultsOnly p x)
    (hf : ∀ a, FaultsOnly p (f a)) : FaultsOnly p (x >>= f) := by
  intro s fault s' he
  cases hx : x s with
  | ok a s'' =>
    rw [bind_of_ok hx] at he
    exact hf a _ _ _ he
  | error fault' s'' =>
    rw [bind_of_error hx] at he
    cases he
    exact h _ _ _ hx

theorem faultsOnly_faultAt {o : Token} {r : Except Fault.Cause Value}
    (h : ∀ cause, r = .error cause → p ⟨o, cause⟩) : FaultsOnly p (faultAt o r) := by
  intro s fault s' he
  cases r with
  | ok v => cases he
  | error cause =>
    cases he
    exact h cause rfl

theorem faultsOnly_read {x : Token} (hx : p ⟨x, .undefinedName⟩) : FaultsOnly p (read x) := by
  intro s fault s' h
  simp only [read, Interpreter.read, Scopes.read] at h
  cases hv : s.scopes.get? s.current x.lexeme with
  | some v =>
    rw [hv] at h
    cases h
  | none =>
    rw [hv] at h
    cases h
    exact hx

theorem faultsOnly_write {x : Token} (hx : p ⟨x, .undefinedName⟩) (v : Value) :
    FaultsOnly p (write x v) := by
  intro s fault s' h
  simp only [write, Interpreter.write, Scopes.write] at h
  cases hv : s.scopes.assign? s.current x.lexeme v with
  | some scopes =>
    rw [hv] at h
    cases h
  | none =>
    rw [hv] at h
    cases h
    exact hx

end Evaluation

open Evaluation in
theorem Expr.faultsOnly_sites (e : Expr) :
    FaultsOnly (fun fault => fault.token ∈ e.sites) e.eval := by
  induction e with
  | literal v => exact faultsOnly_pure v
  | group inner ih => exact ih
  | unary o right ih =>
    refine (ih.mono fun _ h => ?_).bind fun v => faultsOnly_faultAt fun _ _ => ?_
    · exact List.mem_cons_of_mem o h
    · exact List.mem_cons_self
  | binary left o right ihl ihr =>
    refine (ihl.mono fun _ h => ?_).bind fun v =>
      (ihr.mono fun _ h => ?_).bind fun w => faultsOnly_faultAt fun _ _ => ?_
    · exact List.mem_append_left _ h
    · exact List.mem_append_right _ (List.mem_cons_of_mem o h)
    · exact List.mem_append_right _ List.mem_cons_self
  | name x => exact faultsOnly_read List.mem_cons_self
  | assign x e ih =>
    refine (ih.mono fun _ h => ?_).bind fun v =>
      (faultsOnly_write ?_ v).bind fun _ => faultsOnly_pure v
    · exact List.mem_cons_of_mem x h
    · exact List.mem_cons_self

open Evaluation in
/-- The fault of a run that uses the value of an expression is a fault of the expression. -/
theorem Run.fault_ofEvaluation {p : Fault → Prop} {e : Expr} (he : FaultsOnly p e.eval)
    {s : Interpreter} {use : Value → Interpreter → Run} (huse : ∀ v s', (use v s').fault = none)
    {fault : Fault} (h : (ofEvaluation e s use).fault = some fault) : p fault := by
  rw [ofEvaluation, EStateM.run] at h
  cases hr : e.eval s with
  | ok v s' =>
    rw [hr] at h
    cases (huse v s').symm.trans h
  | error fault' s' =>
    rw [hr] at h
    cases h
    exact he s fault s' hr

mutual

theorem Stmt.mem_sites_of_fault : ∀ (stmt : Stmt) {s : Interpreter} {fault : Fault},
    (stmt.exec s).fault = some fault → fault.token ∈ stmt.sites
  | .expression e, _, _, h => Run.fault_ofEvaluation e.faultsOnly_sites (fun _ _ => rfl) h
  | .print e, _, _, h => Run.fault_ofEvaluation e.faultsOnly_sites (fun _ _ => rfl) h
  | .block body, _, _, h => mem_sitesAll_of_fault body h
  | .declare _ none, _, _, h => by cases h
  | .declare _ (some e), _, _, h => Run.fault_ofEvaluation e.faultsOnly_sites (fun _ _ => rfl) h

/-- A fault is at an operator or a name of the program. -/
theorem Stmt.mem_sitesAll_of_fault : ∀ (program : List Stmt) {s : Interpreter} {fault : Fault},
    (Stmt.execAll program s).fault = some fault → fault.token ∈ Stmt.sitesAll program
  | [], _, _, h => by cases h
  | stmt :: rest, s, fault, h => by
    rw [Stmt.execAll, Run.andThen] at h
    rw [Stmt.sitesAll, List.mem_append]
    cases hf : (stmt.exec s).fault with
    | some fault' =>
      rw [hf] at h
      exact .inl (mem_sites_of_fault stmt h)
    | none =>
      rw [hf] at h
      exact .inr (mem_sitesAll_of_fault rest h)

end

/-! ### The tokens of a tree -/

namespace Grammar

/-- Operators and names are no semicolons. -/
theorem Chain.kind_ne_semicolon {s t : Symbol} {operators : List Kind} (h : Chain s operators t) :
    ∀ k ∈ operators, k ≠ .semicolon := by
  cases h <;> decide

theorem Phrase.mem_sites {s : Symbol} (e : Phrase s) :
    ∀ t ∈ e.tree.sites, t ∈ e.tokens ∧ t.kind ≠ .semicolon := by
  induction e with
  | expression e ih => exact ih
  | assign target equals value ih =>
    intro t ht
    rcases List.mem_cons.1 ht with rfl | ht
    · exact ⟨List.mem_cons_self, by rw [target.kind_eq]; decide⟩
    · exact ⟨by simp [tokens, (ih t ht).1], (ih t ht).2⟩
  | equality e ih => exact ih
  | operand h e ih => exact ih
  | operation h left operator right ihl ihr =>
    intro t ht
    rcases List.mem_append.1 ht with ht | ht
    · exact ⟨by simp [tokens, (ihl t ht).1], (ihl t ht).2⟩
    rcases List.mem_cons.1 ht with rfl | ht
    · exact ⟨by simp [tokens], h.kind_ne_semicolon _ operator.kind_mem⟩
    · exact ⟨by simp [tokens, (ihr t ht).1], (ihr t ht).2⟩
  | unary operator right ih =>
    intro t ht
    rcases List.mem_cons.1 ht with rfl | ht
    · exact ⟨List.mem_cons_self,
        (by decide : ∀ k ∈ [Kind.bang, .minus], k ≠ .semicolon) _ operator.kind_mem⟩
    · exact ⟨by simp [tokens, (ih t ht).1], (ih t ht).2⟩
  | primary e ih => exact ih
  | literal t =>
    obtain ⟨value, htree⟩ := exists_tree_literal t
    rw [htree]
    exact fun t ht => absurd ht List.not_mem_nil
  | name t =>
    intro u hu
    obtain rfl := List.mem_singleton.1 hu
    exact ⟨List.mem_cons_self, by rw [t.kind_eq]; decide⟩
  | group opening inner closing ih =>
    intro t ht
    exact ⟨by simp [tokens, (ih t ht).1], (ih t ht).2⟩

namespace Sentence

mutual

theorem mem_sites : ∀ (d : Sentence), ∀ t ∈ d.tree.sites, t ∈ d.tokens ∧ t.kind ≠ .semicolon
  | .declare _ _ none _, t, ht => absurd ht List.not_mem_nil
  | .declare _ _ (some (equals, e)) _, t, ht =>
    ⟨by simp [tokens, initialTokens, (e.mem_sites t ht).1], (e.mem_sites t ht).2⟩
  | .print _ e _, t, ht => ⟨by simp [tokens, (e.mem_sites t ht).1], (e.mem_sites t ht).2⟩
  | .block _ body _, t, ht =>
    ⟨by simp [tokens, (mem_sitesAll body t ht).1], (mem_sitesAll body t ht).2⟩
  | .expression e _, t, ht => ⟨by simp [tokens, (e.mem_sites t ht).1], (e.mem_sites t ht).2⟩

theorem mem_sitesAll : ∀ (ds : List Sentence), ∀ t ∈ Stmt.sitesAll (trees ds),
    t ∈ allTokens ds ∧ t.kind ≠ .semicolon
  | [], t, ht => absurd ht List.not_mem_nil
  | d :: ds, t, ht => by
    rcases List.mem_append.1 ht with ht | ht
    · exact ⟨List.mem_append_left _ (mem_sites d t ht).1, (mem_sites d t ht).2⟩
    · exact ⟨List.mem_append_right _ (mem_sitesAll ds t ht).1, (mem_sitesAll ds t ht).2⟩

end

end Sentence

/-- The operators and names of a program that is read without errors are tokens of its source. -/
theorem mem_sitesAll_parseAll {tokens : List Token} (h : (Stmt.parseAll tokens).errors = []) :
    ∀ t ∈ Stmt.sitesAll (Stmt.parseAll tokens).value, t ∈ tokens ∧ t.kind ≠ .semicolon := by
  obtain ⟨ds, hds, htrees⟩ := exists_sentences ⟨rfl, h, rfl⟩
  rw [← htrees]
  intro t ht
  rw [← hds]
  exact Sentence.mem_sitesAll ds t ht

end Grammar

end Scriptlet
