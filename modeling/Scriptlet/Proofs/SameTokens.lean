import Mathlib.Data.List.Forall2
import Scriptlet.Proofs.Batch
import Scriptlet.Proofs.LineReports

/-!
# What a run depends on

A source is run by its tokens, and their lines show in nothing but the lines of the reports. So two
sources without lexical errors whose tokens differ in their lines at most, however they are laid
out, are run alike, also as lines typed by a user (`Session.run_of_alike`). The semicolon that such
a line is closed with is put behind both or behind none (`Scan.Alike.closeLine`).
-/

namespace Scriptlet

/-- The tokens differ in their lines at most. -/
structure Token.Alike (t u : Token) : Prop where
  kind : t.kind = u.kind
  lexeme : t.lexeme = u.lexeme
  literal : t.literal = u.literal

/-- The reports differ in their lines at most. -/
structure Report.Alike (r q : Report) : Prop where
  kind : r.kind = q.kind
  location : r.location = q.location
  message : r.message = q.message

/-- The answers differ at most in the lines of their reports, and of the tokens in the statements
read. -/
structure Answer.Alike (a b : Answer) : Prop where
  status : a.status = b.status
  printed : a.printed = b.printed
  interpreter : a.session.interpreter = b.session.interpreter
  reports : List.Forall₂ Report.Alike a.reports b.reports

theorem Token.alike_iff (t u : Token) :
    t.Alike u ↔ t.reline (fun _ => 1) = u.reline (fun _ => 1) := by
  obtain ⟨kind, lexeme, literal, line⟩ := t
  obtain ⟨kind', lexeme', literal', line'⟩ := u
  simp only [reline, mk.injEq, and_true]
  exact ⟨fun h => ⟨h.kind, h.lexeme, h.literal⟩, fun h => ⟨h.1, h.2.1, h.2.2⟩⟩

theorem Report.alike_iff (r q : Report) :
    r.Alike q ↔ r.reline (fun _ => 1) = q.reline (fun _ => 1) := by
  obtain ⟨kind, line, location, message⟩ := r
  obtain ⟨kind', line', location', message'⟩ := q
  simp only [reline, mk.injEq, true_and]
  exact ⟨fun h => ⟨h.kind, h.location, h.message⟩, fun h => ⟨h.1, h.2.1, h.2.2⟩⟩

/-- What compares images holds of two lists in pairs if their images are the same. -/
theorem forall₂_iff_map_eq {α : Type} {R : α → α → Prop} {f : α → α}
    (h : ∀ a b, R a b ↔ f a = f b) {l m : List α} : List.Forall₂ R l m ↔ l.map f = m.map f := by
  rw [← List.forall₂_eq_eq_eq, List.forall₂_map_left_iff, List.forall₂_map_right_iff]
  exact ⟨fun hR => hR.imp fun a b => (h a b).1, fun hf => hf.imp fun a b => (h a b).2⟩

/-! ### Scanning -/

namespace Scan

/-- The sources have no errors in their segments, and the same tokens but for their lines. -/
structure Alike (a b : String) : Prop where
  errors_left : (ofSource a).errors = []
  errors_right : (ofSource b).errors = []
  ahead : (ofSource a).stream.ahead.map (Token.reline fun _ => 1)
    = (ofSource b).stream.ahead.map (Token.reline fun _ => 1)

theorem alike_of_forall₂ {a b : String} (ha : (ofSource a).errors = [])
    (hb : (ofSource b).errors = [])
    (h : List.Forall₂ Token.Alike (ofSource a).stream.toList (ofSource b).stream.toList) :
    Alike a b := by
  refine ⟨ha, hb, ?_⟩
  have hmap := (forall₂_iff_map_eq Token.alike_iff).1 h
  rw [TokenStream.toList, TokenStream.toList, List.map_append, List.map_append] at hmap
  exact (List.append_inj' hmap rfl).1

variable {a b : String}

/-- What stands on further lines is scanned alike behind both sources. -/
theorem Alike.append_newline (h : Alike a b) {c : String} (hc : (ofSource c).errors = []) :
    Alike (a ++ "\n" ++ c) (b ++ "\n" ++ c) := by
  obtain ⟨ha, -, herrors⟩ := ofSource_append_newline (a := a) c (by rw [h.errors_left]; simp)
  obtain ⟨hb, -, herrors'⟩ := ofSource_append_newline (a := b) c (by rw [h.errors_right]; simp)
  refine ⟨?_, ?_, ?_⟩
  · rw [herrors, h.errors_left, hc]
    rfl
  · rw [herrors', h.errors_right, hc]
    rfl
  · rw [ha, hb, List.map_append, List.map_append, List.map_map, List.map_map, h.ahead]
    rfl

theorem Alike.closeLine (h : Alike a b) : Alike (Session.closeLine a) (Session.closeLine b) := by
  have hlast : (ofSource a).stream.ahead.getLast?.map (Token.reline fun _ => 1)
      = (ofSource b).stream.ahead.getLast?.map (Token.reline fun _ => 1) := by
    rw [← List.getLast?_map, ← List.getLast?_map, h.ahead]
  have hclosed : ∀ line : String, line ++ "\n;" = line ++ "\n" ++ ";" := fun line => by
    rw [String.append_assoc]
    rfl
  simp only [Session.closeLine]
  cases ha : (ofSource a).stream.ahead.getLast? with
  | none =>
    rw [ha, Option.map_none, eq_comm, Option.map_eq_none_iff] at hlast
    rw [hlast]
    exact h
  | some t =>
    rw [ha, Option.map_some, eq_comm, Option.map_eq_some_iff] at hlast
    obtain ⟨u, hb, hu⟩ := hlast
    have hkind : u.kind = t.kind := ((Token.alike_iff u t).2 hu).kind
    simp only [hb, hkind]
    split
    · exact h
    · rw [hclosed, hclosed]
      exact h.append_newline (by cbv)

end Scan

/-! ### Compiling -/

theorem Compilation.alike {a b : String} (h : Scan.Alike a b) :
    Stmt.relineAll (fun _ => 1) (ofSource a).program
        = Stmt.relineAll (fun _ => 1) (ofSource b).program
      ∧ (ofSource a).reports.map (Report.reline fun _ => 1)
        = (ofSource b).reports.map (Report.reline fun _ => 1) := by
  have hread : ∀ source : String, (Scan.ofSource source).errors = [] →
      let read := Stmt.parseAll ((Scan.ofSource source).stream.ahead.map (Token.reline fun _ => 1))
      Stmt.relineAll (fun _ => 1) (ofSource source).program = read.value
        ∧ (ofSource source).reports.map (Report.reline fun _ => 1)
          = read.errors.map (Report.ofSyntaxError (.atEnd 1)) := by
    intro source hsource read
    obtain ⟨hvalue, herrors, -⟩ := Relining.relined_parseAll (g := fun _ => 1)
      (Scan.ofSource source).stream.ahead
    refine ⟨hvalue.symm, ?_⟩
    simp only [ofSource, hsource, List.map_nil, List.nil_append, read, herrors, List.map_map]
    exact List.map_congr_left fun e _ =>
      (Report.ofSyntaxError_reline (fun _ => 1) (Scan.ofSource source).stream.final e).symm
  obtain ⟨ha, ha'⟩ := hread a h.errors_left
  obtain ⟨hb, hb'⟩ := hread b h.errors_right
  rw [ha, ha', hb, hb', h.ahead]
  exact ⟨rfl, rfl⟩

/-! ### Running -/

theorem Session.echoing_relineAll (g : Nat → Nat) (program : List Stmt) :
    echoing (Stmt.relineAll g program) = Stmt.relineAll g (echoing program) := by
  match program with
  | [] => rfl
  | [stmt] => cases stmt <;> rfl
  | stmt :: stmt' :: rest => cases stmt <;> rfl

namespace Answer

variable {a b : Answer}

theorem alike_of_rejected {s : Session} (ha : a.Rejected s) (hb : b.Rejected s)
    (h : a.reports.map (Report.reline fun _ => 1) = b.reports.map (Report.reline fun _ => 1)) :
    a.Alike b where
  status := ha.status.trans hb.status.symm
  printed := ha.printed.trans hb.printed.symm
  interpreter := ha.interpreter.trans hb.interpreter.symm
  reports := (forall₂_iff_map_eq Report.alike_iff).2 h

/-- Two runs that are the same but for lines either both end in a fault or both do not. -/
theorem ofRun_alike {r r' : Run}
    (h : Relining.relineRun (fun _ => 1) r = Relining.relineRun (fun _ => 1) r')
    (program program' : List Stmt) : (ofRun r program).Alike (ofRun r' program') := by
  obtain ⟨fault, printed, after⟩ := r
  obtain ⟨fault', printed', after'⟩ := r'
  obtain ⟨hfault, hprinted, hafter⟩ := Run.mk.inj h
  refine ⟨?_, hprinted, hafter, ?_⟩
  · cases fault <;> cases fault' <;> first | rfl | cases hfault
  · have hmap := congrArg (fun fault => fault.toList.map Report.ofFault) hfault
    simp only [Option.toList_map, List.map_map] at hmap
    rw [reports_ofRun, reports_ofRun, forall₂_iff_map_eq Report.alike_iff, List.map_map,
      List.map_map]
    exact hmap

end Answer

namespace Session

theorem runAs_alike (s : Session) {plan : List Stmt → List Stmt} {a b : String}
    (hplan : ∀ program, plan (Stmt.relineAll (fun _ => 1) program)
      = Stmt.relineAll (fun _ => 1) (plan program))
    (h : Scan.Alike a b) : (s.runAs plan a).Alike (s.runAs plan b) := by
  obtain ⟨hprogram, hreports⟩ := Compilation.alike h
  by_cases ha : (Compilation.ofSource a).reports = []
  · have hb : (Compilation.ofSource b).reports = [] := by
      rwa [ha, List.map_nil, eq_comm, List.map_eq_nil_iff] at hreports
    have hrun : Relining.relineRun (fun _ => 1)
          (Stmt.execAll (plan (Compilation.ofSource a).program) s.interpreter)
        = Relining.relineRun (fun _ => 1)
          (Stmt.execAll (plan (Compilation.ofSource b).program) s.interpreter) := by
      rw [← Relining.execAll_reline, ← Relining.execAll_reline, ← hplan, ← hplan, hprogram]
    rw [runAs_of_reports_eq_nil ha, runAs_of_reports_eq_nil hb]
    exact Answer.ofRun_alike hrun _ _
  · have hb : (Compilation.ofSource b).reports ≠ [] := by
      intro hb
      rw [hb, List.map_nil, List.map_eq_nil_iff] at hreports
      exact ha hreports
    obtain ⟨hra, hra'⟩ := rejected_runAs ha s plan
    obtain ⟨hrb, hrb'⟩ := rejected_runAs hb s plan
    refine Answer.alike_of_rejected hra hrb ?_
    rw [hra', hrb']
    exact hreports

/-- Two sources without lexical errors whose tokens agree in kind, lexeme and value give the same
status, print the same lines, leave the same interpreter, and give reports that agree in pairs in
all but their lines; so do two typed lines. -/
theorem run_of_alike {a b : String} (ha : (Scan.ofSource a).errors = [])
    (hb : (Scan.ofSource b).errors = [])
    (h : List.Forall₂ Token.Alike (Scan.ofSource a).stream.toList (Scan.ofSource b).stream.toList)
    (s : Session) : (s.run a).Alike (s.run b) ∧ (s.runLine a).Alike (s.runLine b) := by
  have halike := Scan.alike_of_forall₂ ha hb h
  rw [runLine_eq_runAs, runLine_eq_runAs]
  exact ⟨s.runAs_alike (fun _ => rfl) halike, s.runAs_alike (echoing_relineAll _) halike.closeLine⟩

/-- The second source takes three lines, and its last one ends in a comment. -/
theorem run_of_alike_comments :
    let a := "print nil;x"
    let b := "print // words\n\tnil ;\nx // x"
    (Scan.ofSource a).errors = [] ∧ (Scan.ofSource b).errors = []
      ∧ List.Forall₂ Token.Alike (Scan.ofSource a).stream.toList (Scan.ofSource b).stream.toList
      ∧ (fresh.run a).Alike (fresh.run b) ∧ (fresh.runLine a).Alike (fresh.runLine b)
      ∧ (fresh.run a).status = .compileError ∧ (fresh.runLine a).status = .runtimeError := by
  intro a b
  have ha : (Scan.ofSource a).errors = [] := by unfold a; cbv
  have hb : (Scan.ofSource b).errors = [] := by unfold b; cbv
  have hleft : (Scan.ofSource a).stream.toList
      = [⟨.kwPrint, "print", .nil, 1⟩, ⟨.kwNil, "nil", .nil, 1⟩, ⟨.semicolon, ";", .nil, 1⟩,
        .ident "x" 1, .atEnd 1] := by
    unfold a
    cbv
  have hright : (Scan.ofSource b).stream.toList
      = [⟨.kwPrint, "print", .nil, 1⟩, ⟨.kwNil, "nil", .nil, 2⟩, ⟨.semicolon, ";", .nil, 2⟩,
        .ident "x" 3, .atEnd 3] := by
    unfold b
    cbv
  have halike : List.Forall₂ Token.Alike (Scan.ofSource a).stream.toList
      (Scan.ofSource b).stream.toList := by
    rw [hleft, hright, forall₂_iff_map_eq Token.alike_iff]
    rfl
  obtain ⟨hrun, hline⟩ := run_of_alike ha hb halike fresh
  refine ⟨ha, hb, halike, hrun, hline, ?_, ?_⟩
  · unfold a
    cbv
  · unfold a
    cbv

end Session

end Scriptlet
