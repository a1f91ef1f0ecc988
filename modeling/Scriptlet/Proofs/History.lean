import Mathlib
import Scriptlet.Proofs.Outcome
import Scriptlet.Proofs.Refinement

/-!
# What a session remembers

Whatever a session was asked before, and however that ended, its current scope is the global one,
with no scope around it and none left open (`Interpreter.AtTop`). So two sessions with the same
global names have the same interpreter, and from there on give the same answers
(`Session.answers_of_globals`).
-/

namespace Scriptlet

/-- What a session is asked: to run a source, or a line typed by a user. -/
inductive Request where
  | source (text : String)
  | line (text : String)

namespace Session

def answer (s : Session) : Request → Answer
  | .source text => s.run text
  | .line text => s.runLine text

/-- The answers to requests, one after the other. -/
def answers (s : Session) : List Request → List Answer
  | [] => []
  | request :: rest => s.answer request :: (s.answer request).session.answers rest

/-- The session once requests are answered. -/
def after (s : Session) : List Request → Session
  | [] => s
  | request :: rest => (s.answer request).session.after rest

/-- The names bound in the global scope. -/
def globals (s : Session) : Bindings :=
  s.interpreter.scopes.names Interpreter.globalScope

end Session

/-! ### The global scope -/

namespace Interpreter

/-- The current scope is the global one, which lies within no other, and no other is open. -/
structure AtTop (s : Interpreter) : Prop where
  current : s.current = globalScope
  chain : s.scopes.chain globalScope = [globalScope]
  size : s.scopes.all.size = 1

variable {s s' : Interpreter}

theorem atTop_fresh : fresh.AtTop :=
  ⟨rfl, rfl, rfl⟩

theorem AtTop.linked (h : s.AtTop) : s.Linked := by
  obtain ⟨hcurrent, hchain, hsize⟩ := h
  rw [Linked, hcurrent]
  refine ⟨?_, ?_, ?_⟩
  · rw [hsize]
    exact Nat.zero_lt_one
  · rw [hchain, hsize]
    exact fun j hj => List.mem_singleton.1 hj ▸ Nat.zero_lt_one
  · rw [hchain]
    exact List.nodup_cons.2 ⟨List.not_mem_nil, List.nodup_nil⟩

theorem AtTop.of_frame (h : s.AtTop) (hf : s.Frame s') : s'.AtTop where
  current := hf.current.trans h.current
  chain := (hf.scopes.chain _).trans h.chain
  size := hf.scopes.size.trans h.size

theorem AtTop.execAll (h : s.AtTop) (program : List Stmt) :
    (Stmt.execAll program s).after.AtTop :=
  h.of_frame (Stmt.follows_execAll program h.linked).2

/-- Between programs there is nothing in an interpreter but the global names. -/
theorem AtTop.eq_of_names (h : s.AtTop) (h' : s'.AtTop)
    (hn : s.scopes.names globalScope = s'.scopes.names globalScope) : s = s' := by
  have hscopes : ∀ {s : Interpreter}, s.AtTop →
      s.scopes = ⟨#[⟨[], s.scopes.names globalScope⟩]⟩ := by
    rintro ⟨⟨all⟩, current⟩ ⟨-, hchain, hsize⟩
    obtain ⟨⟨enclosing, names⟩, rfl⟩ := Array.size_eq_one_iff.1 hsize
    obtain rfl : enclosing = [] := List.tail_eq_of_cons_eq hchain
    rfl
  have hs := hscopes h
  rw [hn, ← hscopes h'] at hs
  obtain ⟨scopes, current⟩ := s
  obtain ⟨scopes', current'⟩ := s'
  rw [mk.injEq]
  exact ⟨hs, h.current.trans h'.current.symm⟩

end Interpreter

/-! ### Requests -/

namespace Session

variable {s s' : Session}

/-- Every request is answered by running a program. -/
theorem answer_eq_runAs (s : Session) :
    ∀ request, ∃ plan source, s.answer request = s.runAs plan source
  | .source text => ⟨id, text, s.run_eq_runAs text⟩
  | .line text => ⟨echoing, closeLine text, s.runLine_eq_runAs text⟩

/-- A request leaves the interpreter as some program does, a rejected one as the empty program. -/
theorem exists_interpreter_answer (s : Session) (request : Request) :
    ∃ program, (s.answer request).session.interpreter
      = (Stmt.execAll program s.interpreter).after := by
  obtain ⟨plan, source, hanswer⟩ := s.answer_eq_runAs request
  rw [hanswer]
  by_cases hreports : (Compilation.ofSource source).reports = []
  · rw [runAs_of_reports_eq_nil hreports]
    exact ⟨_, Answer.interpreter_ofRun _ _⟩
  · exact ⟨[], (rejected_runAs hreports s plan).1.interpreter⟩

theorem atTop_answer (h : s.interpreter.AtTop) (request : Request) :
    (s.answer request).session.interpreter.AtTop := by
  obtain ⟨program, hafter⟩ := s.exists_interpreter_answer request
  rw [hafter]
  exact h.execAll program

/-- No flag outlives the request that it tells of. -/
theorem tracked_answer (s : Session) (request : Request) :
    (s.answer request).session.diagnostics.Tracked
      ∧ (s.answer request).status = (s.answer request).session.diagnostics.status := by
  obtain ⟨plan, source, hanswer⟩ := s.answer_eq_runAs request
  rw [hanswer]
  exact s.tracked_runAs plan source

theorem atTop_after (h : s.interpreter.AtTop) (requests : List Request) :
    (s.after requests).interpreter.AtTop := by
  induction requests generalizing s with
  | nil => exact h
  | cons request rest ih => exact ih (atTop_answer h request)

/-- What was reported before does not show in an answer. -/
theorem answer_of_interpreter (h : s.interpreter = s'.interpreter) :
    ∀ request, s.answer request = s'.answer request := by
  obtain ⟨interpreter, diagnostics⟩ := s
  obtain ⟨interpreter', diagnostics'⟩ := s'
  obtain rfl : interpreter = interpreter' := h
  intro request
  cases request <;> rfl

theorem answers_of_interpreter (h : s.interpreter = s'.interpreter) :
    ∀ requests, s.answers requests = s'.answers requests
      ∧ (s.after requests).interpreter = (s'.after requests).interpreter
  | [] => ⟨rfl, h⟩
  | request :: rest => by
    rw [answers, answers, after, after, answer_of_interpreter h request]
    exact ⟨rfl, rfl⟩

/-- After any requests the current scope of a session is the global one, which lies within no other.
So two sessions with the same global names, whatever they were asked before, give the same answers
to further requests and have the same global names after them. -/
theorem answers_of_globals (past past' : List Request) :
    let s := fresh.after past
    let s' := fresh.after past'
    s.interpreter.AtTop
      ∧ (s.globals = s'.globals → ∀ future, s.answers future = s'.answers future
        ∧ (s.after future).globals = (s'.after future).globals) := by
  intro s s'
  have hs : s.interpreter.AtTop := atTop_after Interpreter.atTop_fresh past
  have hs' : s'.interpreter.AtTop := atTop_after Interpreter.atTop_fresh past'
  refine ⟨hs, fun hglobals future => ?_⟩
  obtain ⟨hanswers, hafter⟩ := answers_of_interpreter (hs.eq_of_names hs' hglobals) future
  exact ⟨hanswers, by rw [globals, globals, hafter]⟩

/-- In the second session a block within a block ends in a fault, and a line does not compile. -/
theorem answers_of_globals_faults :
    let s := fresh.after [.source "var a = true;"]
    let s' := fresh.after [.line "{ var a; { print b; } }", .line "print", .line "var a = !nil"]
    let future := [.line "a", .source "{ a = c; }"]
    s.interpreter.AtTop ∧ s.globals = s'.globals ∧ s.answers future = s'.answers future
      ∧ (s.after future).globals = (s'.after future).globals := by
  intro s s' future
  have hglobals : s.globals = (∅ : Bindings).insert "a" (.bool true) := by
    unfold s
    cbv
  have hglobals' : s'.globals = (∅ : Bindings).insert "a" (.bool true) := by
    unfold s'
    cbv
  obtain ⟨htop, hanswers⟩ := answers_of_globals [.source "var a = true;"]
    [.line "{ var a; { print b; } }", .line "print", .line "var a = !nil"]
  have hsame : s.globals = s'.globals := hglobals.trans hglobals'.symm
  obtain ⟨hfuture, hafter⟩ := hanswers hsame future
  exact ⟨htop, hsame, hfuture, hafter⟩

end Session

end Scriptlet
