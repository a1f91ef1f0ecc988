import Scriptlet.Session

/-!
# The outcome of a source

A session settles a source in exactly one of three ways (`Session.run_settled`): it rejects the
source for its errors and changes nothing, or the program ends in one fault, or there is nothing to
report. The flags of the diagnostics tell of the reports since the last reset
(`Diagnostics.Tracked`), which every source starts with, so that no report outlives the next source.
A typed line is run as a program that shows the value of a lone expression
(`Session.runLine_eq_runAs`).
-/

namespace Scriptlet

namespace Diagnostics

/-! ### Flags -/

/-- The flags tell whether an error or a fault is among the reports. -/
structure Tracked (d : Diagnostics) : Prop where
  error : d.hadError = true ↔ ∃ r ∈ d.reports, r.kind ≠ .runtime
  fault : d.hadFault = true ↔ ∃ r ∈ d.reports, r.kind = .runtime

variable {d : Diagnostics} {r : Report} {rs : List Report}

theorem tracked_reset (d : Diagnostics) : d.reset.Tracked := by
  constructor <;> simp [reset]

/-- A report changes nothing for the sort that it is not of. -/
theorem exists_mem_concat_iff {p : Report → Prop} (hr : ¬ p r) :
    (∃ u ∈ rs ++ [r], p u) ↔ ∃ u ∈ rs, p u := by
  simp [List.mem_append, or_and_right, exists_or, hr]

theorem Tracked.addError (h : d.Tracked) (hr : r.kind ≠ .runtime) : (d.addError r).Tracked where
  error := ⟨fun _ => ⟨r, List.mem_append_right _ (List.mem_singleton_self r), hr⟩, fun _ => rfl⟩
  fault := h.fault.trans (exists_mem_concat_iff hr).symm

theorem Tracked.addFault (h : d.Tracked) (hr : r.kind = .runtime) : (d.addFault r).Tracked where
  error := h.error.trans (exists_mem_concat_iff (not_not_intro hr)).symm
  fault := ⟨fun _ => ⟨r, List.mem_append_right _ (List.mem_singleton_self r), hr⟩, fun _ => rfl⟩

theorem Tracked.addErrors (h : d.Tracked) (hrs : ∀ r ∈ rs, r.kind ≠ .runtime) :
    (d.addErrors rs).Tracked := by
  induction rs generalizing d with
  | nil => exact h
  | cons r rs ih =>
    obtain ⟨hr, hrs⟩ := List.forall_mem_cons.1 hrs
    exact ih (h.addError hr) hrs

theorem reports_addErrors (d : Diagnostics) (rs : List Report) :
    (d.addErrors rs).reports = d.reports ++ rs := by
  induction rs generalizing d with
  | nil => exact (List.append_nil _).symm
  | cons r rs ih => exact (ih (d.addError r)).trans (List.append_cons _ _ _).symm

/-! ### Errors in a source -/

/-- All reports are of errors in a source, the errors of its segments first. -/
def OfErrors (d : Diagnostics) : Prop :=
  ∃ lexical syntactic, d.reports = lexical ++ syntactic ∧ (∀ r ∈ lexical, r.kind = .lexical)
    ∧ ∀ r ∈ syntactic, r.kind = .syntactic

theorem OfErrors.kind_ne_runtime (h : d.OfErrors) : ∀ r ∈ d.reports, r.kind ≠ .runtime := by
  obtain ⟨lexical, syntactic, hd, hl, hs⟩ := h
  rw [hd]
  intro r hr
  rcases List.mem_append.1 hr with hr | hr
  · rw [hl r hr]
    decide
  · rw [hs r hr]
    decide

/-- The diagnostics once a source is read. -/
def compiled (d : Diagnostics) (source : String) : Diagnostics :=
  d.reset.addErrors (Compilation.ofSource source).reports

theorem reports_compiled (d : Diagnostics) (source : String) :
    (d.compiled source).reports = (Compilation.ofSource source).reports :=
  reports_addErrors d.reset _

theorem ofErrors_compiled (d : Diagnostics) (source : String) : (d.compiled source).OfErrors := by
  refine ⟨_, _, reports_compiled d source, fun r hr => ?_, fun r hr => ?_⟩
  · obtain ⟨e, -, rfl⟩ := List.mem_map.1 hr
    rfl
  · obtain ⟨e, -, rfl⟩ := List.mem_map.1 hr
    rfl

theorem tracked_compiled (d : Diagnostics) (source : String) : (d.compiled source).Tracked := by
  refine (tracked_reset d).addErrors ?_
  rw [← reports_compiled d source]
  exact (ofErrors_compiled d source).kind_ne_runtime

theorem hadFault_compiled (d : Diagnostics) (source : String) :
    (d.compiled source).hadFault = false := by
  refine Bool.eq_false_iff.2 fun hfault => ?_
  obtain ⟨r, hr, hk⟩ := (tracked_compiled d source).fault.1 hfault
  exact (ofErrors_compiled d source).kind_ne_runtime r hr hk

theorem hadError_compiled_iff (d : Diagnostics) (source : String) :
    (d.compiled source).hadError = true ↔ (Compilation.ofSource source).reports ≠ [] := by
  rw [(tracked_compiled d source).error, ← reports_compiled d source]
  constructor
  · rintro ⟨r, hr, -⟩
    exact List.ne_nil_of_mem hr
  · intro hne
    obtain ⟨r, hr⟩ := List.exists_mem_of_ne_nil _ hne
    exact ⟨r, hr, (ofErrors_compiled d source).kind_ne_runtime r hr⟩

/-- Without an error nothing is left of what was reported before. -/
theorem compiled_of_reports_eq_nil {source : String}
    (h : (Compilation.ofSource source).reports = []) (d : Diagnostics) :
    d.compiled source = {} := by
  rw [compiled, h]
  rfl

end Diagnostics

namespace Answer

/-- The source has errors, and the session is left as it was but for its reports. -/
structure Rejected (s : Session) (a : Answer) : Prop where
  status : a.status = .compileError
  hadError : a.session.diagnostics.hadError = true
  hadFault : a.session.diagnostics.hadFault = false
  reports_ne_nil : a.reports ≠ []
  ofErrors : a.session.diagnostics.OfErrors
  printed : a.printed = []
  interpreter : a.session.interpreter = s.interpreter

/-- The program ended in a fault, which is all that is reported. -/
structure Faulted (a : Answer) : Prop where
  status : a.status = .runtimeError
  hadError : a.session.diagnostics.hadError = false
  hadFault : a.session.diagnostics.hadFault = true
  reports : ∃ r, a.reports = [r] ∧ r.kind = .runtime

/-- The program ended without a fault, and there is nothing to report. -/
structure Succeeded (a : Answer) : Prop where
  status : a.status = .success
  hadError : a.session.diagnostics.hadError = false
  hadFault : a.session.diagnostics.hadFault = false
  reports : a.reports = []

/-- Of the three ways to settle a source in a session `s`, the answer takes exactly one. -/
structure Settled (s : Session) (a : Answer) : Prop where
  some_way : a.Rejected s ∨ a.Faulted ∨ a.Succeeded
  not_rejected_faulted : ¬ (a.Rejected s ∧ a.Faulted)
  not_rejected_succeeded : ¬ (a.Rejected s ∧ a.Succeeded)
  not_faulted_succeeded : ¬ (a.Faulted ∧ a.Succeeded)

/-- The status tells the ways apart. -/
theorem settled_of_ways {s : Session} {a : Answer} (h : a.Rejected s ∨ a.Faulted ∨ a.Succeeded) :
    a.Settled s := by
  refine ⟨h, ?_, ?_, ?_⟩ <;>
    · rintro ⟨h₁, h₂⟩
      have hstatus := h₁.status.symm.trans h₂.status
      cases hstatus

/-- The answer to a source without errors whose program was run. -/
def ofRun (r : Run) (program : List Stmt) : Answer :=
  let diagnostics : Diagnostics :=
    match r.fault with
    | none => {}
    | some fault => Diagnostics.addFault {} (.ofFault fault)
  ⟨⟨r.after, diagnostics⟩, diagnostics.status, r.printed, program⟩

variable (r : Run) (program : List Stmt)

@[simp] theorem interpreter_ofRun : (ofRun r program).session.interpreter = r.after := rfl

theorem reports_ofRun : (ofRun r program).reports = r.fault.toList.map Report.ofFault := by
  obtain ⟨fault | fault, printed, after⟩ := r <;> rfl

theorem faulted_or_succeeded : (ofRun r program).Faulted ∨ (ofRun r program).Succeeded := by
  obtain ⟨fault | fault, printed, after⟩ := r
  · exact .inr ⟨rfl, rfl, rfl, rfl⟩
  · exact .inl ⟨rfl, rfl, rfl, _, rfl, rfl⟩

end Answer

namespace Session

/-! ### What is done with a program -/

/-- The program that prints the value of a lone expression. -/
def echoing : List Stmt → List Stmt
  | [.expression e] => [.print e]
  | program => program

theorem echoing_of_forall_ne {program : List Stmt} (h : ∀ e, program ≠ [.expression e]) :
    echoing program = program := by
  unfold echoing
  split
  · exact absurd rfl (h _)
  · rfl

/-- To evaluate an expression and to tell of its value is to print it. -/
theorem respond_eq_interpret (s : Session) (program : List Stmt) :
    s.respond program = s.interpret (echoing program) := by
  unfold respond
  split
  · rename_i e
    have hprint : Stmt.execAll [.print e] s.interpreter
        = Run.ofEvaluation e s.interpreter fun value s' => ⟨none, [value.display], s'⟩ := by
      rw [Stmt.execAll_singleton, Stmt.exec]
    simp only [echoing, interpret, evaluate, hprint, Run.ofEvaluation]
    cases e.eval.run s.interpreter <;> rfl
  · rename_i hlone
    rw [echoing_of_forall_ne hlone]

/-- Runs what `plan` makes of the program of a source. -/
def runAs (s : Session) (plan : List Stmt → List Stmt) (source : String) : Answer :=
  s.runWith (fun compiled program => compiled.interpret (plan program)) source

theorem run_eq_runAs (s : Session) (source : String) : s.run source = s.runAs id source := rfl

theorem runLine_eq_runAs (s : Session) (line : String) :
    s.runLine line = s.runAs echoing (closeLine line) := by
  rw [runLine, runAs]
  congr
  funext compiled program
  exact compiled.respond_eq_interpret program

/-! ### Answers -/

theorem rejected_runAs {source : String} (h : (Compilation.ofSource source).reports ≠ [])
    (s : Session) (plan : List Stmt → List Stmt) :
    (s.runAs plan source).Rejected s ∧ (s.runAs plan source).reports
      = (Compilation.ofSource source).reports := by
  have herror := (s.diagnostics.hadError_compiled_iff source).2 h
  have hreports := s.diagnostics.reports_compiled source
  have hrun : s.runAs plan source = ⟨⟨s.interpreter, s.diagnostics.compiled source⟩,
      .compileError, [], (Compilation.ofSource source).program⟩ := if_pos herror
  rw [hrun]
  exact
    ⟨{ status := rfl
       hadError := herror
       hadFault := s.diagnostics.hadFault_compiled source
       reports_ne_nil := fun hnil => h (hreports.symm.trans hnil)
       ofErrors := s.diagnostics.ofErrors_compiled source
       printed := rfl
       interpreter := rfl }, hreports⟩

theorem runAs_of_reports_eq_nil {source : String} (h : (Compilation.ofSource source).reports = [])
    (s : Session) (plan : List Stmt → List Stmt) :
    s.runAs plan source
      = .ofRun (Stmt.execAll (plan (Compilation.ofSource source).program) s.interpreter)
        (Compilation.ofSource source).program := by
  have hcompiled := Diagnostics.compiled_of_reports_eq_nil h s.diagnostics
  rw [Diagnostics.compiled] at hcompiled
  simp only [runAs, runWith, hcompiled, interpret, Answer.ofRun]
  rcases (Stmt.execAll (plan (Compilation.ofSource source).program) s.interpreter).fault with
    fault | fault <;> rfl

theorem faulted_or_succeeded_runAs {source : String}
    (h : (Compilation.ofSource source).reports = []) (s : Session)
    (plan : List Stmt → List Stmt) :
    (s.runAs plan source).Faulted ∨ (s.runAs plan source).Succeeded := by
  rw [runAs_of_reports_eq_nil h]
  exact Answer.faulted_or_succeeded _ _

/-- A report is of the fault that ended the program, or of an error in the source. -/
theorem mem_reports_runAs {s : Session} {plan : List Stmt → List Stmt} {source : String}
    {r : Report} (h : r ∈ (s.runAs plan source).reports) :
    ((Compilation.ofSource source).reports = []
        ∧ ∃ fault, r = .ofFault fault
          ∧ (Stmt.execAll (plan (Compilation.ofSource source).program) s.interpreter).fault
            = some fault)
      ∨ r ∈ (Compilation.ofSource source).reports ∧ r.kind ≠ .runtime := by
  by_cases hreports : (Compilation.ofSource source).reports = []
  · rw [runAs_of_reports_eq_nil hreports, Answer.reports_ofRun] at h
    obtain ⟨fault, hfault, rfl⟩ := List.mem_map.1 h
    exact .inl ⟨hreports, fault, rfl, Option.mem_toList.1 hfault⟩
  · obtain ⟨hrejected, hread⟩ := rejected_runAs hreports s plan
    exact .inr ⟨hread ▸ h, hrejected.ofErrors.kind_ne_runtime r h⟩

theorem settled_runAs (s : Session) (plan : List Stmt → List Stmt) (source : String) :
    (s.runAs plan source).Settled s := by
  by_cases h : (Compilation.ofSource source).reports = []
  · exact Answer.settled_of_ways (.inr (faulted_or_succeeded_runAs h s plan))
  · exact Answer.settled_of_ways (.inl (rejected_runAs h s plan).1)

theorem settled_runLine (s : Session) (line : String) : (s.runLine line).Settled s := by
  rw [runLine_eq_runAs]
  exact s.settled_runAs echoing (closeLine line)

theorem status_runAs_eq_compileError_iff {s : Session} {plan : List Stmt → List Stmt}
    {source : String} :
    (s.runAs plan source).status = .compileError ↔ (Compilation.ofSource source).reports ≠ [] := by
  refine ⟨fun hstatus hnil => ?_, fun h => (rejected_runAs h s plan).1.status⟩
  rcases faulted_or_succeeded_runAs hnil s plan with h | h
  · cases hstatus.symm.trans h.status
  · cases hstatus.symm.trans h.status

/-- Whatever was reported before, the flags tell of the reports that a program adds. -/
theorem tracked_interpret {s : Session} (h : s.diagnostics.Tracked) (program : List Stmt) :
    (s.interpret program).1.diagnostics.Tracked := by
  simp only [interpret]
  split
  · exact h
  · exact h.addFault rfl

/-- The flags that a source leaves tell of its own reports, and the status of the flags. -/
theorem tracked_runAs (s : Session) (plan : List Stmt → List Stmt) (source : String) :
    (s.runAs plan source).session.diagnostics.Tracked
      ∧ (s.runAs plan source).status = (s.runAs plan source).session.diagnostics.status := by
  have hcompiled := s.diagnostics.tracked_compiled source
  rw [runAs, runWith]
  split
  · rename_i herror
    exact ⟨hcompiled, (if_pos herror).symm⟩
  · exact ⟨tracked_interpret hcompiled _, rfl⟩

/-- A source and a line are settled in exactly one way each, and the answer is the same whatever
was reported before. -/
theorem run_settled (s : Session) (source : String) :
    (s.run source).Settled s ∧ (s.runLine source).Settled s
      ∧ ∀ d, ({ s with diagnostics := d } : Session).run source = s.run source
        ∧ ({ s with diagnostics := d } : Session).runLine source = s.runLine source :=
  ⟨s.settled_runAs id source, s.settled_runLine source, fun _ => ⟨rfl, rfl⟩⟩

end Session

end Scriptlet
