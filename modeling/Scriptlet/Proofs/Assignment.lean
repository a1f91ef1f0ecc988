import Scriptlet.Proofs.ScopeFrame

/-!
# Reading and assigning a name

A name that resolves is read and assigned without a fault (`Evaluation.read_of_resolve?`,
`Evaluation.exists_write`); one that does not is reported and nothing changes. After an assignment
the name has the new value as seen from the same scope, and all other names have the values that
they had (`Evaluation.resolve?_of_write`).
-/

namespace Scriptlet

namespace Scopes

variable {s : Scopes} {i j : ScopeId} {x : String} {v : Value}

theorem lt_of_mem_names (h : x ∈ s.names j) : j < s.all.size := by
  by_contra hle
  rw [names_of_le (Nat.le_of_not_lt hle)] at h
  exact Std.ExtHashMap.not_mem_empty h

theorem here?_define (h : j < s.all.size) (k : ScopeId) (y : String) :
    (s.define j x v).here? k y = if k = j ∧ y = x then some v else s.here? k y := by
  rw [here?_eq_names, here?_eq_names]
  by_cases hk : k = j
  · subst hk
    rw [names_define_self h, Std.ExtHashMap.getElem?_insert]
    by_cases hy : y = x
    · simp [hy]
    · simp [hy, Ne.symm hy]
  · rw [names_define_of_ne hk, if_neg fun h => hk h.1]

/-- A name that is bound in a scope is bound anew there, and all names stay bound where they are. -/
theorem owner?_define (h : x ∈ s.names j) (i : ScopeId) (y : String) :
    (s.define j x v).owner? i y = s.owner? i y := by
  rw [owner?, owner?, chain_define]
  congr 1
  funext k
  refine Bool.eq_iff_iff.2 (isSome_here?_iff.trans (Iff.trans ⟨fun hy => ?_, mem_define_of_mem⟩
    isSome_here?_iff.symm))
  rcases mem_of_mem_define hy with hy | ⟨rfl, rfl⟩
  · exact hy
  · exact h

theorem isSome_owner?_iff : (s.owner? i x).isSome ↔ ∃ j ∈ s.chain i, x ∈ s.names j := by
  simp only [owner?, List.find?_isSome, isSome_here?_iff]

theorem get?_eq_some_iff : s.get? i x = some v ↔ ∃ j, s.Nearest i x j ∧ (s.names j)[x]? = some v := by
  simp only [get?, Option.bind_eq_some_iff, owner?_eq_some_iff, here?_eq_names]

theorem isSome_get? (s : Scopes) (i : ScopeId) (x : String) :
    (s.get? i x).isSome = (s.owner? i x).isSome := by
  rw [get?]
  cases h : s.owner? i x with
  | none => rfl
  | some j =>
    obtain ⟨-, -, -, hj, -⟩ := owner?_eq_some_iff.1 h
    exact isSome_here?_iff.2 hj

theorem get?_define_of_nearest (h : s.Nearest i x j) (y : String) :
    (s.define j x v).get? i y = if y = x then some v else s.get? i y := by
  obtain ⟨-, -, -, hmem, -⟩ := id h
  have hlt := lt_of_mem_names hmem
  rw [get?, get?, owner?_define hmem]
  by_cases hy : y = x
  · subst hy
    rw [owner?_eq_some_iff.2 h, Option.bind_some, here?_define hlt, if_pos ⟨rfl, rfl⟩, if_pos rfl]
  · rw [if_neg hy]
    exact Option.bind_congr fun k _ => by rw [here?_define hlt, if_neg fun h => hy h.2]

end Scopes

namespace Evaluation

variable {s s' : Interpreter} {x : Token} {v : Value}

theorem read_of_resolve? (h : s.resolve? x.lexeme = some v) : read x s = .ok v s := by
  rw [Interpreter.resolve?] at h
  rw [read, Interpreter.read, Scopes.read, h]

theorem read_of_unresolved (h : s.resolve? x.lexeme = none) :
    read x s = .error ⟨x, .undefinedName⟩ s := by
  rw [Interpreter.resolve?] at h
  rw [read, Interpreter.read, Scopes.read, h]

theorem read_eq_ok_iff : read x s = .ok v s ↔ s.resolve? x.lexeme = some v := by
  cases h : s.resolve? x.lexeme with
  | none => simp [read_of_unresolved h]
  | some w => simp [read_of_resolve? h]

theorem exists_write (h : (s.resolve? x.lexeme).isSome) (v : Value) :
    ∃ s', write x v s = .ok () s' := by
  rw [Interpreter.resolve?, Scopes.isSome_get?] at h
  obtain ⟨j, hj⟩ := Option.isSome_iff_exists.1 h
  refine ⟨{ s with scopes := s.scopes.define j x.lexeme v }, ?_⟩
  rw [write, Interpreter.write, Scopes.write, Scopes.assign?, hj]
  rfl

theorem write_of_unresolved (h : s.resolve? x.lexeme = none) (v : Value) :
    write x v s = .error ⟨x, .undefinedName⟩ s := by
  have howner : s.scopes.owner? s.current x.lexeme = none := by
    rw [← Option.isNone_iff_eq_none, ← Option.not_isSome, ← Scopes.isSome_get?,
      ← Interpreter.resolve?, h]
    rfl
  rw [write, Interpreter.write, Scopes.write, Scopes.assign?, howner]
  rfl

theorem exists_write_iff (v : Value) :
    (∃ s', write x v s = .ok () s') ↔ (s.resolve? x.lexeme).isSome := by
  refine ⟨?_, fun h => exists_write h v⟩
  rintro ⟨s', h⟩
  cases hx : s.resolve? x.lexeme with
  | none =>
    rw [write_of_unresolved hx] at h
    cases h
  | some w => rfl

theorem resolve?_of_write (h : write x v s = .ok () s') (y : String) :
    s'.resolve? y = if y = x.lexeme then some v else s.resolve? y := by
  rw [write] at h
  cases hw : s.write x v with
  | error fault =>
    rw [hw] at h
    cases h
  | ok t =>
    rw [hw] at h
    cases h
    obtain ⟨j, hnear, rfl⟩ := Interpreter.nearest_of_write hw
    exact Scopes.get?_define_of_nearest hnear y

end Evaluation

end Scriptlet
