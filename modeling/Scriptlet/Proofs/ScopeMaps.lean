import Scriptlet.Interpreter.Basic
import Scriptlet.Proofs.Reference

/-!
# Scopes as maps

What a scope sees is the list of the maps along its chain (`Scopes.maps`). On chains of distinct
open scopes (`Scopes.Linked`) looking up, assigning and defining are the operations on that list,
and a block puts a map in front of it and takes it off again. None of them changes a scope off the
chain (`Scopes.Frame`).
-/

namespace Scriptlet

namespace Scopes

variable {s s' s'' : Scopes} {i j : ScopeId} {l : List ScopeId} {x : String} {v : Value}

/-- The names bound in a scope. -/
def names (s : Scopes) (i : ScopeId) : Bindings :=
  match s.all[i]? with
  | some scope => scope.names
  | none => ∅

/-- The maps of a scope and of those around it, the innermost first. -/
def maps (s : Scopes) (i : ScopeId) : Reference.Env :=
  (s.chain i).map s.names

/-- The scope is open, and its chain goes through open scopes, through each of them once. -/
structure Linked (s : Scopes) (i : ScopeId) : Prop where
  opened : i < s.all.size
  chain_opened : ∀ j ∈ s.chain i, j < s.all.size
  nodup : (s.chain i).Nodup

/-- The same scopes, with other names at most in the scopes of a list. -/
structure Frame (s s' : Scopes) (l : List ScopeId) : Prop where
  size : s'.all.size = s.all.size
  chain : ∀ i, s'.chain i = s.chain i
  names : ∀ i ∉ l, s'.names i = s.names i

theorem Frame.refl (s : Scopes) (l : List ScopeId) : s.Frame s l :=
  ⟨rfl, fun _ => rfl, fun _ _ => rfl⟩

theorem Frame.trans (h : s.Frame s' l) (h' : s'.Frame s'' l) : s.Frame s'' l :=
  ⟨h'.size.trans h.size, fun i => (h'.chain i).trans (h.chain i),
    fun i hi => (h'.names i hi).trans (h.names i hi)⟩

theorem Linked.of_frame (h : s.Linked i) (hf : s.Frame s' l) : s'.Linked i where
  opened := hf.size ▸ h.opened
  chain_opened := by
    rw [hf.chain, hf.size]
    exact h.chain_opened
  nodup := by
    rw [hf.chain]
    exact h.nodup

theorem chain_eq_cons (h : i < s.all.size) : ∃ outer, s.chain i = i :: outer := by
  rw [chain, Array.getElem?_eq_getElem h]
  exact ⟨_, rfl⟩

theorem chain_of_le (h : s.all.size ≤ i) : s.chain i = [] := by
  rw [chain, Array.getElem?_eq_none h]

theorem names_of_le (h : s.all.size ≤ i) : s.names i = ∅ := by
  rw [names, Array.getElem?_eq_none h]

theorem here?_eq_names (s : Scopes) (i : ScopeId) (x : String) : s.here? i x = (s.names i)[x]? := by
  rw [here?, names]
  cases s.all[i]? with
  | none => exact Std.ExtHashMap.getElem?_empty.symm
  | some scope => rfl

theorem isSome_here?_iff : (s.here? i x).isSome ↔ x ∈ s.names i := by
  rw [here?_eq_names, Std.ExtHashMap.isSome_getElem?_iff_mem]

/-! ### Defining -/

theorem chain_define (s : Scopes) (i : ScopeId) (x : String) (v : Value) (j : ScopeId) :
    (s.define i x v).chain j = s.chain j := by
  rw [chain, chain, define, Array.getElem?_modify]
  by_cases h : i = j
  · rw [if_pos h]
    cases s.all[j]? <;> rfl
  · rw [if_neg h]

theorem names_define_of_ne (h : j ≠ i) : (s.define i x v).names j = s.names j := by
  rw [names, names, define, Array.getElem?_modify, if_neg h.symm]

theorem names_define_self (h : i < s.all.size) :
    (s.define i x v).names i = (s.names i).insert x v := by
  rw [names, names, define, Array.getElem?_modify, if_pos rfl, Array.getElem?_eq_getElem h]
  rfl

theorem frame_define (h : i ∈ l) : s.Frame (s.define i x v) l where
  size := Array.size_modify
  chain := s.chain_define i x v
  names _ hj := names_define_of_ne fun hji => hj (hji ▸ h)

theorem map_names_define_of_notMem (h : i ∉ l) :
    l.map (s.define i x v).names = l.map s.names := by
  refine List.map_congr_left fun j hj => names_define_of_ne ?_
  rintro rfl
  exact h hj

theorem maps_define (h : s.Linked i) :
    (s.define i x v).maps i = Reference.define (s.maps i) x v := by
  obtain ⟨outer, hc⟩ := chain_eq_cons h.opened
  have hi : i ∉ outer := (List.nodup_cons.1 (hc ▸ h.nodup)).1
  rw [maps, maps, chain_define, hc, List.map_cons, names_define_self h.opened,
    map_names_define_of_notMem hi]
  rfl

/-! ### Looking up and assigning -/

theorem get?_eq_lookup? (s : Scopes) (i : ScopeId) (x : String) :
    s.get? i x = Reference.lookup? (s.maps i) x := by
  rw [get?, owner?, maps]
  induction s.chain i with
  | nil => rfl
  | cons j outer ih =>
    rw [List.map_cons, Reference.lookup?, List.find?_cons]
    by_cases h : x ∈ s.names j
    · rw [if_pos h, isSome_here?_iff.2 h]
      exact s.here?_eq_names j x
    · rw [if_neg h, Bool.eq_false_iff.2 fun hj => h (isSome_here?_iff.1 hj)]
      exact ih

theorem owner?_mem (h : s.owner? i x = some j) : j ∈ s.chain i :=
  List.mem_of_find?_eq_some h

theorem frame_assign? (h : s.assign? i x v = some s') : s.Frame s' (s.chain i) := by
  obtain ⟨j, hj, rfl⟩ := Option.map_eq_some_iff.1 h
  exact frame_define (owner?_mem hj)

theorem map_assign? (hl : ∀ j ∈ l, j < s.all.size) (hn : l.Nodup) :
    ((l.find? fun j => (s.here? j x).isSome).map fun j => l.map (s.define j x v).names)
      = Reference.assign? (l.map s.names) x v := by
  induction l with
  | nil => rfl
  | cons i outer ih =>
    obtain ⟨hi, hn⟩ := List.nodup_cons.1 hn
    rw [List.map_cons, Reference.assign?, List.find?_cons]
    by_cases h : x ∈ s.names i
    · rw [if_pos h, isSome_here?_iff.2 h, Option.map_some, List.map_cons,
        names_define_self (hl i List.mem_cons_self), map_names_define_of_notMem hi]
    · rw [if_neg h, Bool.eq_false_iff.2 fun hj => h (isSome_here?_iff.1 hj),
        ← ih (fun j hj => hl j (List.mem_cons_of_mem i hj)) hn, Option.map_map]
      -- The scope that is assigned to lies further out, so the names of `i` stay.
      refine Option.map_congr fun j hj => ?_
      have hji : i ≠ j := by
        rintro rfl
        exact hi (List.mem_of_find?_eq_some hj)
      rw [List.map_cons, names_define_of_ne hji]
      rfl

theorem maps_assign? (h : s.Linked i) :
    (s.assign? i x v).map (fun s' => s'.maps i) = Reference.assign? (s.maps i) x v := by
  rw [maps, ← map_assign? h.chain_opened h.nodup, assign?, Option.map_map, owner?]
  refine Option.map_congr fun j _ => ?_
  rw [Function.comp_apply, maps, chain_define]

/-! ### Opening and closing -/

/-- A further scope within another, with names. -/
def extend (s : Scopes) (i : ScopeId) (names : Bindings) : Scopes :=
  ⟨s.all.push ⟨s.chain i, names⟩⟩

theorem chain_extend_of_lt {m : Bindings} (h : j < s.all.size) :
    (s.extend i m).chain j = s.chain j := by
  rw [chain, chain, extend, Array.getElem?_push_lt h, Array.getElem?_eq_getElem h]

theorem names_extend_of_lt {m : Bindings} (h : j < s.all.size) :
    (s.extend i m).names j = s.names j := by
  rw [names, names, extend, Array.getElem?_push_lt h, Array.getElem?_eq_getElem h]

theorem chain_extend_next (s : Scopes) (i : ScopeId) (m : Bindings) :
    (s.extend i m).chain s.next = s.next :: s.chain i := by
  rw [chain, extend, next, Array.getElem?_push_size]

theorem names_extend_next (s : Scopes) (i : ScopeId) (m : Bindings) :
    (s.extend i m).names s.next = m := by
  rw [names, extend, next, Array.getElem?_push_size]

theorem maps_extend {m : Bindings} (h : s.Linked i) :
    (s.extend i m).maps s.next = m :: s.maps i := by
  rw [maps, chain_extend_next, List.map_cons, names_extend_next, maps]
  congr 1
  exact List.map_congr_left fun j hj => names_extend_of_lt (h.chain_opened j hj)

theorem Linked.extend (h : s.Linked i) (m : Bindings) : (s.extend i m).Linked s.next where
  opened := by simp [Scopes.extend, next]
  chain_opened := by
    intro j hj
    rw [chain_extend_next] at hj
    have hsize : (s.extend i m).all.size = s.all.size + 1 := Array.size_push _
    rw [hsize]
    rcases List.mem_cons.1 hj with rfl | hj
    · exact Nat.lt_succ_self _
    · exact Nat.lt_succ_of_lt (h.chain_opened j hj)
  nodup := by
    rw [chain_extend_next]
    refine List.nodup_cons.2 ⟨fun hmem => ?_, h.nodup⟩
    exact Nat.lt_irrefl _ (h.chain_opened _ hmem)

theorem linked_global (m : Bindings) : (empty.extend 0 m).Linked 0 where
  opened := Nat.zero_lt_one
  chain_opened j hj := by
    rw [List.mem_singleton.1 hj]
    exact Nat.zero_lt_one
  nodup := List.nodup_cons.2 ⟨List.not_mem_nil, List.nodup_nil⟩

/-- Every list of maps, but for the empty one, is what a scope of some scopes sees. -/
theorem exists_linked (m : Bindings) (env : Reference.Env) :
    ∃ s i, Linked s i ∧ s.maps i = m :: env := by
  induction env generalizing m with
  | nil => exact ⟨empty.extend 0 m, 0, linked_global m, rfl⟩
  | cons m' env ih =>
    obtain ⟨s, i, hs, hm⟩ := ih m'
    exact ⟨s.extend i m, s.next, hs.extend m, by rw [maps_extend hs, hm]⟩

theorem chain_close_of_lt (h : j + 1 < s.all.size) : s.close.chain j = s.chain j := by
  rw [chain, chain, close, Array.getElem?_pop, if_pos (Nat.lt_sub_of_add_lt h)]

theorem names_close_of_lt (h : j + 1 < s.all.size) : s.close.names j = s.names j := by
  rw [names, names, close, Array.getElem?_pop, if_pos (Nat.lt_sub_of_add_lt h)]

/-- Closing a scope undoes opening it, whatever changed on its chain in between. -/
theorem frame_close {m : Bindings} (hf : (s.extend i m).Frame s' (s.next :: s.chain i)) :
    s.Frame s'.close (s.chain i) := by
  have hsize : s'.all.size = s.all.size + 1 := hf.size.trans (Array.size_push _)
  have hclose : s'.close.all.size = s.all.size := by
    rw [close, Array.size_pop, hsize, Nat.add_sub_cancel]
  refine ⟨hclose, fun j => ?_, fun j hj => ?_⟩
  · rcases Nat.lt_or_ge j s.all.size with h | h
    · rw [chain_close_of_lt (hsize ▸ Nat.succ_lt_succ h), hf.chain, chain_extend_of_lt h]
    · rw [chain_of_le h, chain_of_le (hclose ▸ h)]
  · rcases Nat.lt_or_ge j s.all.size with h | h
    · have hne : j ∉ s.next :: s.chain i := by
        rw [List.mem_cons, not_or]
        exact ⟨Nat.ne_of_lt h, hj⟩
      rw [names_close_of_lt (hsize ▸ Nat.succ_lt_succ h), hf.names j hne, names_extend_of_lt h]
    · rw [names_of_le h, names_of_le (hclose ▸ h)]

theorem maps_close {m : Bindings} (h : s.Linked i)
    (hf : (s.extend i m).Frame s' (s.next :: s.chain i)) :
    s'.maps s.next = s'.names s.next :: s'.close.maps i := by
  have hsize : s'.all.size = s.all.size + 1 := hf.size.trans (Array.size_push _)
  rw [maps, hf.chain, chain_extend_next, List.map_cons, maps, (frame_close hf).chain]
  congr 1
  refine List.map_congr_left fun j hj => (names_close_of_lt ?_).symm
  exact hsize ▸ Nat.succ_lt_succ (h.chain_opened j hj)

end Scopes

end Scriptlet
