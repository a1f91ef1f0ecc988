import Scriptlet.Proofs.Assignment

/-!
# A name has the value last written to it

What a scope answers is read off the log of all that was asked of the scopes so far, with no regard
to what they hold. The log tells the chain of each scope (`Scopes.Log.Chain`), the nearest scope
where a name was defined (`Scopes.Log.Nearest`) and the value that was last written to it there
(`Scopes.Log.LastWrite`), by a definition in that scope or by an assignment from any scope for which
that scope was the nearest one at the time. After every log a name has that value, and a name that
is defined nowhere on the chain is reported and nothing changes (`Scopes.Log.read_iff_lastWrite`).
-/

namespace Scriptlet

namespace Scopes

/-- What can be asked of scopes. Scopes are named by their places in the order of opening. -/
inductive Operation where
  | openGlobal
  | openWithin (outer : ScopeId)
  | define (i : ScopeId) (name : String) (value : Value)
  | assign (i : ScopeId) (name : Token) (value : Value)
  | get (i : ScopeId) (name : Token)

/-- The scope that an operation is asked of. -/
def Operation.asked? : Operation → Option ScopeId
  | openGlobal => none
  | openWithin outer => some outer
  | define i _ _ => some i
  | assign i _ _ => some i
  | get i _ => some i

/-- For an operation that opens a scope, the scope around the new one, if there is one. -/
def Operation.opens? : Operation → Option (Option ScopeId)
  | openGlobal => some none
  | openWithin outer => some (some outer)
  | _ => none

/-- The scopes after something was done from one of them, whether it succeeded or not. -/
def afterAt {α : Type} (s : Scopes) (i : ScopeId) (x : Evaluation α) : Scopes :=
  match x ⟨s, i⟩ with
  | .ok _ s' => s'.scopes
  | .error _ s' => s'.scopes

/-- The scopes after an operation. -/
def perform (s : Scopes) : Operation → Scopes
  | .openGlobal => s.openGlobal
  | .openWithin outer => s.openWithin outer
  | .define i name value => s.define i name value
  | .assign i name value => s.afterAt i (Evaluation.write name value)
  | .get i name => s.afterAt i (Evaluation.read name)

/-- All that was asked of scopes, in order. -/
abbrev Log : Type :=
  List Operation

/-- The scopes after a log, where there were none before it. -/
def performAll (log : Log) : Scopes :=
  log.foldl perform empty

namespace Log

/-- The scopes that were opened, each given by the scope around it, if there is one. -/
def parents (log : Log) : List (Option ScopeId) :=
  log.filterMap Operation.opens?

/-- Every operation was asked of a scope that was open at the time. -/
def Valid (log : Log) : Prop :=
  ∀ k (hk : k < log.length), ∀ i ∈ log[k].asked?, i < (parents (log.take k)).length

instance (log : Log) : Decidable (Valid log) :=
  inferInstanceAs (Decidable (∀ k (hk : k < log.length), ∀ i ∈ log[k].asked?,
    i < (parents (log.take k)).length))

/-- A scope and those around it, the innermost first. -/
inductive Chain (log : Log) : ScopeId → List ScopeId → Prop
  | outermost {i : ScopeId} (h : (parents log)[i]? = some none) : Chain log i [i]
  | within {i outer : ScopeId} {l : List ScopeId} (h : (parents log)[i]? = some (some outer))
      (hl : Chain log outer l) : Chain log i (i :: l)

/-- The name was defined in the scope. -/
def Defined (log : Log) (i : ScopeId) (x : String) : Prop :=
  ∃ v, .define i x v ∈ log

/-- On the chain of `i`, the scope `j` is the first one where the name was defined. -/
def Nearest (log : Log) (i : ScopeId) (x : String) (j : ScopeId) : Prop :=
  ∃ inner outer, Chain log i (inner ++ j :: outer) ∧ Defined log j x
    ∧ ∀ k ∈ inner, ¬ Defined log k x

/-- Right after the log, the operation writes the value to the name in the scope. -/
inductive Writes (log : Log) : Operation → ScopeId → String → Value → Prop
  | define {i : ScopeId} {x : String} {v : Value} : Writes log (.define i x v) i x v
  | assign {i j : ScopeId} {name : Token} {v : Value} (h : Nearest log i name.lexeme j) :
      Writes log (.assign i name v) j name.lexeme v

/-- The `k`-th operation wrote the value to the name in the scope. -/
def WrittenAt (log : Log) (k : Nat) (i : ScopeId) (x : String) (v : Value) : Prop :=
  ∃ op, log[k]? = some op ∧ Writes (log.take k) op i x v

/-- The value was written to the name in the scope, and none was after it. -/
def LastWrite (log : Log) (i : ScopeId) (x : String) (v : Value) : Prop :=
  ∃ k, WrittenAt log k i x v ∧ ∀ l w, k < l → ¬ WrittenAt log l i x w

/-! ### A log with one more operation -/

variable {log : Log} {op : Operation} {i j : ScopeId} {x : String} {v : Value} {k : Nat}
  {l l' : List ScopeId}

theorem parents_concat (log : Log) (op : Operation) :
    parents (log ++ [op]) = parents log ++ op.opens?.toList := by
  rw [parents, List.filterMap_append]
  cases h : op.opens? with
  | none => rw [List.filterMap_cons_none h]; rfl
  | some parent => rw [List.filterMap_cons_some h]; rfl

theorem valid_concat (h : Valid (log ++ [op])) :
    Valid log ∧ ∀ i ∈ op.asked?, i < (parents log).length := by
  have hlength : (log ++ [op]).length = log.length + 1 := List.length_append
  refine ⟨fun k hk i hi => ?_, fun i hi => ?_⟩
  · have h := h k (by omega) i (by rwa [List.getElem_append_left hk])
    rwa [List.take_append_of_le_length (Nat.le_of_lt hk)] at h
  · have h := h log.length (by omega) i (by rwa [List.getElem_concat_length rfl])
    rwa [List.take_left] at h

theorem Chain.unique (h : Chain log i l) (h' : Chain log i l') : l = l' := by
  induction h generalizing l' with
  | outermost h =>
    cases h' with
    | outermost h' => rfl
    | within h' hl' => cases h.symm.trans h'
  | within h hl ih =>
    cases h' with
    | outermost h' => cases h.symm.trans h'
    | within h' hl' =>
      obtain rfl := Option.some.inj (Option.some.inj (h.symm.trans h'))
      rw [ih hl']

theorem Chain.concat (h : Chain log i l) (op : Operation) : Chain (log ++ [op]) i l := by
  have hparent : ∀ (i : Nat) (parent : Option ScopeId), (parents log)[i]? = some parent →
      (parents (log ++ [op]))[i]? = some parent := by
    intro i parent hi
    rw [parents_concat, List.getElem?_append_left (List.getElem?_eq_some_iff.1 hi).1, hi]
  induction h with
  | outermost h => exact .outermost (hparent _ _ h)
  | within h hl ih => exact .within (hparent _ _ h) ih

theorem defined_concat :
    Defined (log ++ [op]) i x ↔ Defined log i x ∨ ∃ v, op = .define i x v := by
  rw [Defined, Defined, ← exists_or]
  refine exists_congr fun v => ?_
  rw [List.mem_append, List.mem_singleton, @eq_comm _ op]

theorem writtenAt_concat :
    WrittenAt (log ++ [op]) k i x v
      ↔ WrittenAt log k i x v ∨ k = log.length ∧ Writes log op i x v := by
  rcases Nat.lt_trichotomy k log.length with hlt | rfl | hgt
  · rw [WrittenAt, WrittenAt, List.getElem?_append_left hlt,
      List.take_append_of_le_length (Nat.le_of_lt hlt)]
    exact (or_iff_left fun h => Nat.ne_of_lt hlt h.1).symm
  · rw [WrittenAt, WrittenAt, List.getElem?_concat_length, List.take_left,
      List.getElem?_eq_none (Nat.le_refl _)]
    simp
  · have hlength : (log ++ [op]).length ≤ k := by
      rw [List.length_append, List.length_singleton]
      exact hgt
    rw [WrittenAt, WrittenAt, List.getElem?_eq_none hlength,
      List.getElem?_eq_none (Nat.le_of_lt hgt)]
    simp [Nat.ne_of_gt hgt]

theorem WrittenAt.lt_length (h : WrittenAt log k i x v) : k < log.length := by
  obtain ⟨op, hk, -⟩ := h
  exact (List.getElem?_eq_some_iff.1 hk).1

/-- What an operation writes is what was written last, and a value that it does not write over
stays so. -/
theorem lastWrite_concat :
    LastWrite (log ++ [op]) i x v
      ↔ Writes log op i x v ∨ (∀ w, ¬ Writes log op i x w) ∧ LastWrite log i x v := by
  constructor
  · rintro ⟨k, hk, hlast⟩
    rcases writtenAt_concat.1 hk with hk | ⟨-, hk⟩
    · refine .inr ⟨fun w hw => ?_, k, hk, fun l w hl h => ?_⟩
      · exact hlast log.length w hk.lt_length (writtenAt_concat.2 (.inr ⟨rfl, hw⟩))
      · exact hlast l w hl (writtenAt_concat.2 (.inl h))
    · exact .inl hk
  · rintro (h | ⟨hnone, k, hk, hlast⟩)
    · refine ⟨log.length, writtenAt_concat.2 (.inr ⟨rfl, h⟩), fun l w hl h => ?_⟩
      rcases writtenAt_concat.1 h with h | ⟨rfl, -⟩
      · exact Nat.lt_asymm hl h.lt_length
      · exact Nat.lt_irrefl _ hl
    · refine ⟨k, writtenAt_concat.2 (.inl hk), fun l w hl h => ?_⟩
      rcases writtenAt_concat.1 h with h | ⟨-, h⟩
      · exact hlast l w hl h
      · exact hnone w h

/-! ### Scopes and their log -/

variable {s : Scopes}

/-- The scopes hold what the log tells. -/
structure Records (log : Log) (s : Scopes) : Prop where
  size : s.all.size = (parents log).length
  chain : ∀ i < s.all.size, Chain log i (s.chain i)
  defined : ∀ i x, x ∈ s.names i ↔ Defined log i x
  last : ∀ i x v, (s.names i)[x]? = some v ↔ LastWrite log i x v

theorem records_empty : Records [] empty where
  size := rfl
  chain i hi := absurd hi (Nat.not_lt_zero i)
  defined i x := by
    rw [names_of_le (Nat.zero_le i)]
    exact iff_of_false Std.ExtHashMap.not_mem_empty fun ⟨v, hv⟩ => List.not_mem_nil hv
  last i x v := by
    rw [names_of_le (Nat.zero_le i), Std.ExtHashMap.getElem?_empty]
    exact iff_of_false nofun fun ⟨k, hk, _⟩ => Nat.not_lt_zero k hk.lt_length

namespace Records

variable (h : Records log s)
include h

theorem nearest_iff (hi : i < (parents log).length) : s.Nearest i x j ↔ Nearest log i x j := by
  have hchain := h.chain i (h.size ▸ hi)
  simp only [Scopes.Nearest, Nearest, h.defined]
  refine exists_congr fun inner => exists_congr fun outer => and_congr_left fun _ => ?_
  exact ⟨fun heq => heq ▸ hchain, hchain.unique⟩

/-- A scope that is opened changes none that is open, and holds no name. -/
theorem opened {parent : Option ScopeId} (hop : op.opens? = some parent)
    (hchain : Chain (log ++ [op]) s.next (s.next :: s.chain i)) :
    Records (log ++ [op]) (s.openWithin i) where
  size := by
    rw [parents_concat, hop, List.length_append, ← h.size]
    exact Array.size_push _
  chain j hj := by
    have hsize : (s.openWithin i).all.size = s.all.size + 1 := Array.size_push _
    rcases Nat.lt_succ_iff_lt_or_eq.1 (hsize ▸ hj) with hlt | rfl
    · exact (chain_extend_of_lt hlt).symm ▸ (h.chain j hlt).concat op
    · exact (chain_extend_next s i ∅).symm ▸ hchain
  defined j x := by
    have hne : ¬ ∃ v, op = .define j x v := by
      rintro ⟨v, rfl⟩
      cases hop
    rw [defined_concat, or_iff_left hne, ← h.defined, ← Interpreter.names_enter ⟨s, i⟩]
    rfl
  last j x v := by
    have hnone : ∀ w, ¬ Writes log op j x w := by
      rintro w (_ | _) <;> cases hop
    rw [lastWrite_concat, or_iff_right (hnone v), and_iff_right hnone, ← h.last,
      ← Interpreter.names_enter ⟨s, i⟩]
    rfl

/-- An operation that writes one value is a definition where the value is written. -/
theorem written (hop : op.opens? = none) (hj : j < s.all.size)
    (hdefined : ∀ k y, Defined (log ++ [op]) k y ↔ Defined log k y ∨ k = j ∧ y = x)
    (hwrites : ∀ k y w, Writes log op k y w ↔ (k = j ∧ y = x) ∧ w = v) :
    Records (log ++ [op]) (s.define j x v) where
  size := by
    rw [parents_concat, hop, Option.toList_none, List.append_nil, ← h.size]
    exact Array.size_modify
  chain k hk := by
    have hsize : (s.define j x v).all.size = s.all.size := Array.size_modify
    rw [chain_define]
    exact (h.chain k (hsize ▸ hk)).concat op
  defined k y := by
    rw [hdefined, ← h.defined, ← isSome_here?_iff, ← isSome_here?_iff, here?_define hj]
    by_cases hky : k = j ∧ y = x
    · simp [hky]
    · simp [hky]
  last k y w := by
    simp only [lastWrite_concat, hwrites, ← h.last, ← here?_eq_names, here?_define hj]
    by_cases hky : k = j ∧ y = x
    · simp [hky, eq_comm]
    · simp [hky]

/-- An operation that opens nothing and writes nothing leaves all as it is. -/
theorem quiet (hop : op.opens? = none) (hwrites : ∀ j x v, ¬ Writes log op j x v) :
    Records (log ++ [op]) s where
  size := by
    rw [parents_concat, hop, Option.toList_none, List.append_nil, h.size]
  chain k hk := (h.chain k hk).concat op
  defined k y := by
    have hne : ¬ ∃ v, op = .define k y v := by
      rintro ⟨v, rfl⟩
      exact hwrites k y v .define
    rw [defined_concat, or_iff_left hne, h.defined]
  last k y w := by
    rw [lastWrite_concat, or_iff_right (hwrites k y w), and_iff_right (hwrites k y), h.last]

/-- An assignment writes in the nearest scope where the name was defined, if there is one. -/
theorem assigned (hi : i < (parents log).length) (name : Token) (v : Value) :
    Records (log ++ [.assign i name v]) (s.perform (.assign i name v)) := by
  rw [Scopes.perform, afterAt, Evaluation.write, Interpreter.write, Scopes.write, assign?]
  cases hj : s.owner? i name.lexeme with
  | none =>
    refine h.quiet rfl ?_
    rintro j x w (_ | hnear)
    rw [← h.nearest_iff hi, ← owner?_eq_some_iff, hj] at hnear
    cases hnear
  | some j =>
    have hnear := owner?_eq_some_iff.1 hj
    obtain ⟨-, -, -, hmem, -⟩ := id hnear
    refine h.written rfl (lt_of_mem_names hmem) (fun k y => ?_) fun k y w => ?_
    · have hno : ¬ ∃ w, Operation.assign i name v = .define k y w := by
        rintro ⟨w, hw⟩
        cases hw
      rw [defined_concat, or_iff_left hno, or_iff_left_of_imp]
      rintro ⟨rfl, rfl⟩
      exact (h.defined _ _).1 hmem
    · constructor
      · rintro (_ | hnear')
        rw [← h.nearest_iff hi, ← owner?_eq_some_iff, hj] at hnear'
        exact ⟨⟨(Option.some.inj hnear').symm, rfl⟩, rfl⟩
      · rintro ⟨⟨rfl, rfl⟩, rfl⟩
        exact .assign ((h.nearest_iff hi).1 hnear)

/-- The scopes still hold what the log tells after one more operation. -/
theorem perform (hasked : ∀ i ∈ op.asked?, i < (parents log).length) :
    Records (log ++ [op]) (s.perform op) := by
  have hlast : ∀ {parent}, op.opens? = some parent →
      (parents (log ++ [op]))[s.next]? = some parent := by
    intro parent hop
    rw [parents_concat, hop, Scopes.next, h.size]
    exact List.getElem?_concat_length
  cases op with
  | openGlobal =>
    -- The next scope is not open yet, so what is opened within it has no scope around it.
    have hchain : s.chain s.next = [] := chain_of_le (Nat.le_refl _)
    have hopen : s.openGlobal = s.openWithin s.next := by
      rw [Scopes.openGlobal, Scopes.openWithin, hchain]
    rw [Scopes.perform, hopen]
    refine h.opened rfl ?_
    rw [hchain]
    exact .outermost (hlast rfl)
  | openWithin outer =>
    refine h.opened rfl (.within (hlast rfl) ?_)
    exact (h.chain outer (h.size ▸ hasked outer rfl)).concat _
  | define i x v =>
    refine h.written rfl (h.size ▸ hasked i rfl) (fun k y => ?_) fun k y w => ?_
    · rw [defined_concat]
      simp [eq_comm]
    · constructor
      · rintro ⟨⟩
        exact ⟨⟨rfl, rfl⟩, rfl⟩
      · rintro ⟨⟨rfl, rfl⟩, rfl⟩
        exact .define
  | assign i name v => exact h.assigned (hasked i rfl) name v
  | get i name =>
    have hquiet : s.perform (.get i name) = s := by
      rw [Scopes.perform, afterAt, Evaluation.read]
      cases Interpreter.read ⟨s, i⟩ name <;> rfl
    rw [hquiet]
    refine h.quiet rfl fun j x v hwrites => ?_
    cases hwrites

end Records

theorem records_performAll (h : Valid log) : Records log (performAll log) := by
  induction log using List.reverseRecOn with
  | nil => exact records_empty
  | append_singleton log op ih =>
    obtain ⟨hlog, hop⟩ := valid_concat h
    rw [performAll, List.foldl_append]
    exact (ih hlog).perform hop

/-! ### Answers -/

/-- After a log a name has the value that was last written to it in the nearest scope where it was
defined, and an assignment to it succeeds. A name that was defined in no scope of the chain is
reported, by reading and by assigning, and nothing changes. -/
theorem read_iff_lastWrite {log : Log} (h : Valid log) {i : ScopeId}
    (hi : i < (parents log).length) (name : Token) :
    let s : Interpreter := ⟨performAll log, i⟩
    s.scopes.next = (parents log).length
      ∧ ((∃ v, Evaluation.read name s = .ok v s)
        ↔ ∃ l, Chain log i l ∧ ∃ j ∈ l, Defined log j name.lexeme)
      ∧ (∀ v, Evaluation.read name s = .ok v s
        ↔ ∃ j, Nearest log i name.lexeme j ∧ LastWrite log j name.lexeme v)
      ∧ (∀ v, (∃ s', Evaluation.write name v s = .ok () s')
        ↔ ∃ l, Chain log i l ∧ ∃ j ∈ l, Defined log j name.lexeme)
      ∧ ((¬ ∃ l, Chain log i l ∧ ∃ j ∈ l, Defined log j name.lexeme) →
        ∃ fault, fault.token = name
          ∧ fault.message = "Undefined variable '" ++ name.lexeme ++ "'."
          ∧ Evaluation.read name s = .error fault s
          ∧ ∀ v, Evaluation.write name v s = .error fault s) := by
  intro s
  have hrecords : Records log s.scopes := records_performAll h
  have hchain : (∃ l, Chain log i l ∧ ∃ j ∈ l, Defined log j name.lexeme)
      ↔ (s.resolve? name.lexeme).isSome := by
    have hi := hrecords.chain i (hrecords.size ▸ hi)
    rw [Interpreter.resolve?, isSome_get?, isSome_owner?_iff]
    simp only [hrecords.defined]
    refine ⟨?_, fun hj => ⟨_, hi, hj⟩⟩
    rintro ⟨l, hl, hj⟩
    rwa [hi.unique hl]
  refine ⟨hrecords.size, ?_, fun v => ?_, fun v => ?_, fun hnone => ?_⟩
  · rw [hchain, Option.isSome_iff_exists]
    exact exists_congr fun v => Evaluation.read_eq_ok_iff
  · rw [Evaluation.read_eq_ok_iff]
    refine get?_eq_some_iff.trans (exists_congr fun j => ?_)
    rw [hrecords.nearest_iff hi, hrecords.last]
  · rw [hchain]
    exact Evaluation.exists_write_iff v
  · rw [hchain, Option.not_isSome_iff_eq_none] at hnone
    exact ⟨⟨name, .undefinedName⟩, rfl, rfl, Evaluation.read_of_unresolved hnone,
      Evaluation.write_of_unresolved hnone⟩

/-- Two scopes lie within one. Through the first of them the outer scope is assigned to, while the
second has a name of its own. A name that was never defined is reported. -/
theorem read_iff_lastWrite_siblings :
    let x := Token.ident "x" 1
    let y := Token.ident "y" 1
    let log : Log := [.openGlobal, .openWithin 0, .openWithin 0, .define 0 "x" .nil,
      .assign 1 x (.bool true), .define 2 "x" .nil, .assign 2 x (.bool false)]
    Valid log ∧ 1 < (parents log).length ∧ 2 < (parents log).length
      ∧ (∃ j, Nearest log 1 "x" j ∧ LastWrite log j "x" (.bool true))
      ∧ (∃ j, Nearest log 2 "x" j ∧ LastWrite log j "x" (.bool false))
      ∧ ∃ fault, fault.token = y ∧ fault.message = "Undefined variable 'y'."
        ∧ Evaluation.write y .nil ⟨performAll log, 2⟩ = .error fault ⟨performAll log, 2⟩ := by
  intro x y log
  have hvalid : Valid log := by decide
  have hfirst : 1 < (parents log).length := by decide
  have hsecond : 2 < (parents log).length := by decide
  have houter : (Interpreter.mk (performAll log) 1).resolve? "x" = some (.bool true) := by
    unfold log x
    cbv
  have hown : (Interpreter.mk (performAll log) 2).resolve? "x" = some (.bool false) := by
    unfold log x
    cbv
  have hnever : ¬ ∃ l, Chain log 2 l ∧ ∃ j ∈ l, Defined log j "y" := by
    rintro ⟨l, -, j, -, v, hv⟩
    simp [log] at hv
  refine ⟨hvalid, hfirst, hsecond, ?_, ?_, ?_⟩
  · exact ((read_iff_lastWrite hvalid hfirst x).2.2.1 _).1 (Evaluation.read_of_resolve? houter)
  · exact ((read_iff_lastWrite hvalid hsecond x).2.2.1 _).1 (Evaluation.read_of_resolve? hown)
  · obtain ⟨fault, htoken, hmessage, -, hwrite⟩ :=
      (read_iff_lastWrite hvalid hsecond y).2.2.2.2 hnever
    exact ⟨fault, htoken, hmessage, hwrite .nil⟩

end Log

end Scopes

end Scriptlet
