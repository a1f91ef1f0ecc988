import Scriptlet.Proofs.ReferenceUnique
import Scriptlet.Proofs.Spelling

/-!
# What programs of a source can be stopped by

The trees read from a source have no other operators than those of the language, and no other names
than words that are not reserved, whatever errors were reported on the way
(`Stmt.supported_parseAll`). An operator that supports no values at all is therefore never met, and
a program of a source is stopped by one of five faults only, each at a token of its own kind that
the source contains (`Session.run_faults`).
-/

namespace Scriptlet

/-- The token writes a name: a word that is not reserved. -/
structure Token.IsName (t : Token) : Prop where
  kind : t.kind = .identifier
  word : Lexicon.Matches .word t.lexeme.toList
  not_reserved : ∀ kind, (t.lexeme, kind) ∉ Kind.reserved

namespace Kind

def unaryOperators : List Kind :=
  [bang, minus]

/-- The binary operators whose operands must be numbers. -/
def numeric : List Kind :=
  [minus, star, slash, greater, greaterEqual, less, lessEqual]

def binaryOperators : List Kind :=
  [plus, equalEqual, bangEqual] ++ numeric

end Kind

/-- All operators are operators of the language, and all names are names. -/
def Expr.Supported : Expr → Prop
  | literal _ => True
  | group inner => inner.Supported
  | unary operator right => operator.kind ∈ Kind.unaryOperators ∧ right.Supported
  | binary left operator right =>
    left.Supported ∧ operator.kind ∈ Kind.binaryOperators ∧ right.Supported
  | name token => token.IsName
  | assign target value => target.IsName ∧ value.Supported

mutual

def Stmt.Supported : Stmt → Prop
  | expression e => e.Supported
  | print e => e.Supported
  | block body => Stmt.AllSupported body
  | declare name none => name.IsName
  | declare name (some e) => name.IsName ∧ e.Supported

def Stmt.AllSupported : List Stmt → Prop
  | [] => True
  | stmt :: rest => stmt.Supported ∧ Stmt.AllSupported rest

end

/-- What a fault at a token says, by the kind of the token. -/
inductive Token.Blamed : Token → String → Prop
  | notAddable {t : Token} (h : t.kind = .plus) :
      Blamed t "Operands must be two numbers or two strings."
  | notNumbers {t : Token} (h : t.kind ∈ Kind.numeric) : Blamed t "Operands must be numbers."
  | notNumber {t : Token} (h : t.kind = .minus) : Blamed t "Operand must be a number."
  | zeroDivisor {t : Token} (h : t.kind = .slash) : Blamed t "Division by zero."
  | undefinedName {t : Token} (h : t.IsName) : Blamed t ("Undefined variable '" ++ t.lexeme ++ "'.")

/-! ### Names of a source -/

theorem Scan.isName_of_mem_ahead {source : String} {t : Token}
    (h : t ∈ (ofSource source).stream.ahead) (hk : t.kind = .identifier) : t.IsName := by
  cases (spelled_of_mem_ahead h).spelling with
  | mark hm =>
    exact absurd hk ((by decide : ∀ entry ∈ Kind.marks, entry.2 ≠ .identifier) _ hm)
  | word hword hof =>
    refine ⟨hk, hword, fun kind hreserved => ?_⟩
    rw [hof, Kind.ofWord, Lexicon.ofReserved?_eq_some_iff.2 hreserved] at hk
    exact (by decide : ∀ entry ∈ Kind.reserved, entry.2 ≠ .identifier) _ hreserved hk
  | number hn => exact absurd (hk.symm.trans hn) (by decide)
  | quoted hq => exact absurd (hk.symm.trans hq) (by decide)

/-! ### Trees of a source -/

namespace Reading

variable {α β : Type} {tokens : List Token}

/-- What the reading gives, if it does not fail, has the property. -/
def Builds (p : α → Prop) (r : Attempt tokens α) : Prop :=
  ∀ a, r.value = .ok a → p a

variable {p : α → Prop} {q : β → Prop}

theorem builds_done {a : α} (h : p a) : (done a : Attempt tokens α).Builds p := by
  intro b hb
  cases hb
  exact h

theorem builds_fail (cause : SyntaxError.Cause) : (fail cause : Attempt tokens α).Builds p := by
  intro b hb
  cases hb

theorem Builds.past {t : Token} {r : Attempt tokens α} (h : r.Builds p) :
    (r.past : Attempt (t :: tokens) α).Builds p :=
  h

theorem Builds.andThen {r : Attempt tokens α}
    {f : α → (rest : List Token) → rest <:+ tokens → Attempt rest β} (h : r.Builds p)
    (hf : ∀ a rest (hs : rest <:+ tokens), p a → (f a rest hs).Builds q) :
    (r.andThen f).Builds q := by
  intro b hb
  obtain ⟨a, ha, hb⟩ := ok_of_andThen hb
  exact hf a _ _ (h a ha) b hb

theorem builds_expect (kind : Kind) (cause : SyntaxError.Cause) (tokens : List Token) :
    (expect kind cause tokens).Builds fun t => t ∈ tokens ∧ t.kind = kind := by
  cases tokens with
  | nil => exact builds_fail cause
  | cons t after =>
    simp only [expect]
    split
    · rename_i hk
      exact Builds.past (builds_done ⟨List.mem_cons_self, hk⟩)
    · exact builds_fail cause

theorem Builds.andThen_expect {r : Attempt tokens α} {kind : Kind} {cause : SyntaxError.Cause}
    {f : α → β} (h : r.Builds p) (hf : ∀ a, p a → q (f a)) :
    (r.andThen fun a rest _ =>
      (expect kind cause rest).andThen fun _ _ _ => done (f a)).Builds q :=
  h.andThen fun a rest _ ha =>
    (builds_expect kind cause rest).andThen fun _ _ _ _ => builds_done (hf a ha)

theorem Builds.recover {r : Attempt tokens α} (h : r.Builds p) : ∀ a ∈ r.recover.value, p a := by
  intro a ha
  rcases hr : r.value with cause | b
  · rw [recover_of_error hr] at ha
    cases ha
  · rw [recover_of_ok hr] at ha
    cases ha
    exact h a hr

end Reading

/-- All identifiers among the tokens are names. -/
def Named (tokens : List Token) : Prop :=
  ∀ t ∈ tokens, t.kind = .identifier → t.IsName

theorem Named.of_suffix {tokens rest : List Token} (h : Named tokens) (hs : rest <:+ tokens) :
    Named rest :=
  fun t ht => h t (hs.subset ht)

namespace Expr

open Reading

theorem supported_assignTo {target value : Expr} (ht : target.Supported) (hv : value.Supported)
    (equals : Token) (after rest : List Token) :
    (assignTo target equals after value : Attempt rest Expr).Builds Supported := by
  cases target with
  | name t => exact builds_done ⟨ht, hv⟩
  | _ =>
    intro e he
    cases he
    exact ht

theorem mem_binaryOperators : ∀ level ∈ levels, ∀ k ∈ level, k ∈ Kind.binaryOperators := by
  decide

mutual

theorem supported_parse (tokens : List Token) (h : Named tokens) :
    (parse tokens).Builds Supported := by
  rw [parse]
  refine (supported_parseLevels levels tokens (List.Subset.refl _) h).andThen
    fun target rest hs ht => ?_
  have hle := hs.length_le
  match rest, hs, hle with
  | [], _, _ => exact builds_done ht
  | equals :: after, hs, hle =>
    simp only
    split
    · have hlt : after.length < tokens.length := hle
      have hafter := h.of_suffix ((List.suffix_cons equals after).trans hs)
      exact ((supported_parse after hafter).andThen fun value rest _ hv =>
        supported_assignTo ht hv equals after rest).past
    · exact builds_done ht
termination_by (tokens.length, 2 * levels.length + 4)

theorem supported_parseLevels : ∀ (ops : List (List Kind)) (tokens : List Token), ops ⊆ levels →
    Named tokens → (parseLevels ops tokens).Builds Supported
  | [], tokens, _, h => by
    rw [parseLevels]
    exact supported_parseOperand tokens h
  | level :: tighter, tokens, hops, h => by
    obtain ⟨hlevel, htighter⟩ := List.cons_subset.1 hops
    rw [parseLevels]
    refine (supported_parseLevels tighter tokens htighter h).andThen fun left rest hs hl => ?_
    have hle := hs.length_le
    exact supported_parseMore level tighter left rest hlevel htighter hl (h.of_suffix hs)
termination_by ops tokens => (tokens.length, 2 * ops.length + 1)
decreasing_by
  all_goals simp_wf
  all_goals simp [Prod.lex_def]
  all_goals omega

theorem supported_parseMore (level : List Kind) (tighter : List (List Kind)) :
    ∀ (left : Expr) (tokens : List Token), level ∈ levels → tighter ⊆ levels → left.Supported →
    Named tokens → (parseMore level tighter left tokens).Builds Supported
  | left, [], _, _, hl, _ => by
    rw [parseMore]
    exact builds_done hl
  | left, operator :: after, hlevel, htighter, hl, h => by
    have hafter := h.of_suffix (List.suffix_cons operator after)
    rw [parseMore]
    split
    · rename_i hk
      refine Builds.past ((supported_parseLevels tighter after htighter hafter).andThen
        fun right rest hs hr => ?_)
      have hlt : rest.length < (operator :: after).length := Nat.lt_succ_of_le hs.length_le
      have hop := mem_binaryOperators level hlevel _ hk
      exact supported_parseMore level tighter (.binary left operator right) rest hlevel htighter
        ⟨hl, hop, hr⟩ (hafter.of_suffix hs)
    · exact builds_done hl
termination_by _ tokens => (tokens.length, 2 * tighter.length + 2)

theorem supported_parseOperand : ∀ tokens : List Token, Named tokens →
    (parseOperand tokens).Builds Supported
  | [], _ => by
    rw [parseOperand]
    exact builds_fail _
  | t :: after, h => by
    have hafter := h.of_suffix (List.suffix_cons t after)
    rw [parseOperand]
    split
    case h_1 hk | h_2 hk =>
      have hop : t.kind ∈ Kind.unaryOperators := by rw [hk]; decide
      exact ((supported_parseOperand after hafter).andThen
        fun _ _ _ hr => builds_done ⟨hop, hr⟩).past
    case h_8 hk => exact Builds.past (builds_done (h t List.mem_cons_self hk))
    case h_9 =>
      exact Builds.past (Builds.andThen_expect (supported_parse after hafter) fun _ he => he)
    case h_10 => exact builds_fail _
    all_goals exact Builds.past (builds_done trivial)
termination_by tokens => (tokens.length, 0)

end

end Expr

namespace Stmt

open Reading

/-- The name and the initial value of a declaration are supported. -/
theorem supported_declare {name : Token} {initial : Option Expr} (hn : name.IsName)
    (hi : ∀ e ∈ initial, e.Supported) : (declare name initial).Supported := by
  cases initial with
  | none => exact hn
  | some e => exact ⟨hn, hi e rfl⟩

theorem allSupported_toList_append {s? : Option Stmt} {program : List Stmt}
    (hs : ∀ s ∈ s?, s.Supported) (hp : AllSupported program) :
    AllSupported (s?.toList ++ program) := by
  cases s? with
  | none => exact hp
  | some s => exact ⟨hs s rfl, hp⟩

theorem supported_parseInitial (tokens : List Token) (h : Named tokens) :
    (parseInitial tokens).Builds fun initial => ∀ e ∈ initial, e.Supported := by
  cases tokens with
  | nil => exact builds_done nofun
  | cons equals after =>
    have hafter := h.of_suffix (List.suffix_cons equals after)
    simp only [parseInitial]
    split
    · refine Builds.past ((Expr.supported_parse after hafter).andThen fun e _ _ he =>
        builds_done fun e' he' => ?_)
      cases he'
      exact he
    · exact builds_done nofun

theorem supported_parseDeclaration (tokens : List Token) (h : Named tokens) :
    (parseDeclaration tokens).Builds Supported := by
  rw [parseDeclaration]
  refine (builds_expect _ _ tokens).andThen fun name rest hs hn => ?_
  exact (supported_parseInitial rest (h.of_suffix hs)).andThen_expect fun initial hi =>
    supported_declare (h name hn.1 hn.2) hi

mutual

theorem supported_parse (t : Token) (after : List Token) (h : Named (t :: after)) :
    ∀ s ∈ (parse t after).value, s.Supported := by
  have hafter := h.of_suffix (List.suffix_cons t after)
  rw [parse]
  split
  · exact (supported_parseDeclaration after hafter).recover
  split
  · exact Builds.recover (Builds.andThen_expect (Expr.supported_parse after hafter) fun _ he => he)
  split
  · exact Builds.recover (Builds.andThen (supported_parseBlock after hafter) fun _ _ _ hb =>
      builds_done hb)
  · exact Builds.recover
      (Builds.andThen_expect (Expr.supported_parse (t :: after) h) fun _ he => he)
termination_by (after.length, 1)

theorem supported_parseBlock : ∀ tokens : List Token, Named tokens →
    (parseBlock tokens).Builds AllSupported
  | [], _ => by
    rw [parseBlock]
    exact builds_fail _
  | t :: after, h => by
    have hafter := h.of_suffix (List.suffix_cons t after)
    rw [parseBlock]
    split
    · exact Builds.past (builds_done trivial)
    · have hs := (parse t after).suffix
      have hlt : (parse t after).rest.length < (t :: after).length :=
        Nat.lt_succ_of_le hs.length_le
      have hbody := supported_parseBlock (parse t after).rest (hafter.of_suffix hs)
      exact Builds.andThen hbody fun _ _ _ hb =>
        builds_done (allSupported_toList_append (supported_parse t after h) hb)
termination_by tokens => (tokens.length, 0)

end

/-- The statements that are read are supported, also where errors were reported. -/
theorem supported_parseAll : ∀ tokens : List Token, Named tokens →
    AllSupported (parseAll tokens).value
  | [], _ => by
    rw [parseAll]
    trivial
  | t :: after, h => by
    have hs := (parse t after).suffix
    have hlt : (parse t after).rest.length < (t :: after).length := Nat.lt_succ_of_le hs.length_le
    have hrest := (h.of_suffix (List.suffix_cons t after)).of_suffix hs
    rw [parseAll]
    exact allSupported_toList_append (supported_parse t after h) (supported_parseAll _ hrest)
termination_by tokens => tokens.length
decreasing_by exact hlt

end Stmt

/-! ### Faults of supported programs -/

namespace Reference

theorem Unary.blamed {o : Token} {v : Value} {message : String} (h : Unary o v (.error message))
    (ho : o.kind ∈ Kind.unaryOperators) : o.Blamed message := by
  cases h with
  | notNumber hk => exact .notNumber hk
  | unknown _ hk => exact absurd ((by decide : Kind.unaryOperators ⊆ [.minus, .bang]) ho) hk

theorem isSome_onNumbers?_iff (k : Kind) : (onNumbers? k).isSome ↔ k ∈ Kind.numeric := by
  cases k <;> decide

theorem Binary.blamed {o : Token} {v w : Value} {message : String}
    (h : Binary o v w (.error message)) (ho : o.kind ∈ Kind.binaryOperators) :
    o.Blamed message := by
  cases h with
  | notAddable hk => exact .notAddable hk
  | zeroDivisor x y hk => exact .zeroDivisor hk
  | notNumbers hk => exact .notNumbers ((isSome_onNumbers?_iff o.kind).1 hk)
  | unknown _ _ hk hn =>
    rcases List.mem_append.1 ho with ho | ho
    · exact absurd ho hk
    · rw [← isSome_onNumbers?_iff, hn] at ho
      cases ho

end Reference

open Evaluation in
theorem Expr.faultsOnly_blamed {e : Expr} (h : e.Supported) :
    FaultsOnly (fun fault => fault.token.Blamed fault.message) e.eval := by
  induction e with
  | literal v => exact faultsOnly_pure v
  | group inner ih => exact ih h
  | unary o right ih =>
    exact (ih h.2).bind fun v => faultsOnly_faultAt fun _ hv =>
      (Reference.unary_iff.2 (congrArg (Reference.outcomeOf o) hv).symm).blamed h.1
  | binary left o right ihl ihr =>
    exact (ihl h.1).bind fun v => (ihr h.2.2).bind fun w =>
      faultsOnly_faultAt fun _ hv =>
        (Reference.binary_iff.2 (congrArg (Reference.outcomeOf o) hv).symm).blamed h.2.1
  | name x => exact faultsOnly_read (.undefinedName h)
  | assign x e ih =>
    exact (ih h.2).bind fun v =>
      (faultsOnly_write (.undefinedName h.1) v).bind fun _ => faultsOnly_pure v

mutual

theorem Stmt.blamed_of_fault : ∀ {stmt : Stmt} {s : Interpreter} {fault : Fault}, stmt.Supported →
    (stmt.exec s).fault = some fault → fault.token.Blamed fault.message
  | .expression _, _, _, hs, h | .print _, _, _, hs, h =>
    Run.fault_ofEvaluation (Expr.faultsOnly_blamed hs) (fun _ _ => rfl) h
  | .block _, _, _, hs, h => blamed_of_faultAll hs h
  | .declare _ none, _, _, _, h => by cases h
  | .declare _ (some _), _, _, hs, h =>
    Run.fault_ofEvaluation (Expr.faultsOnly_blamed hs.2) (fun _ _ => rfl) h

theorem Stmt.blamed_of_faultAll : ∀ {program : List Stmt} {s : Interpreter} {fault : Fault},
    Stmt.AllSupported program → (Stmt.execAll program s).fault = some fault →
    fault.token.Blamed fault.message
  | [], _, _, _, h => by cases h
  | stmt :: rest, s, fault, hs, h => by
    rw [Stmt.execAll, Run.andThen] at h
    cases hf : (stmt.exec s).fault with
    | some fault' =>
      rw [hf] at h
      exact blamed_of_fault hs.1 h
    | none =>
      rw [hf] at h
      exact blamed_of_faultAll hs.2 h

end

/-! ### Reports -/

/-- The words for an operator that supports no values. -/
def SaysUnknown (message : String) : Prop :=
  ∃ lexeme, message = "Unknown unary operator '" ++ lexeme ++ "'."
    ∨ message = "Unknown binary operator '" ++ lexeme ++ "'."

theorem not_saysUnknown {message : String} (h : message.toList.take 3 ≠ ['U', 'n', 'k']) :
    ¬ SaysUnknown message := by
  rintro ⟨lexeme, rfl | rfl⟩
  all_goals
    refine h ?_
    simp only [String.toList_append]
    rfl

theorem Token.Blamed.not_saysUnknown {t : Token} {message : String} (h : t.Blamed message) :
    ¬ SaysUnknown message := by
  refine Scriptlet.not_saysUnknown ?_
  cases h with
  | undefinedName =>
    rw [String.toList_append, String.toList_append]
    show ['U', 'n', 'd'] ≠ _
    decide
  | _ => decide

theorem LexicalError.Cause.message_unexpected (c : Char) (column : Nat) :
    (unexpected c column).message = "Unexpected character '"
      ++ (toString c ++ ("' (column " ++ (toString column ++ ")."))) := by
  unfold message
  dsimp only
  rw [String.append_assoc, String.append_assoc, String.append_assoc]
  rfl

theorem LexicalError.Cause.not_saysUnknown (cause : LexicalError.Cause) :
    ¬ SaysUnknown cause.message := by
  refine Scriptlet.not_saysUnknown ?_
  cases cause with
  | unexpected c column =>
    rw [message_unexpected, String.toList_append, List.take_append_of_le_length (by decide)]
    decide
  | _ => decide

theorem SyntaxError.Cause.not_saysUnknown (cause : SyntaxError.Cause) :
    ¬ SaysUnknown cause.message := by
  refine Scriptlet.not_saysUnknown ?_
  cases cause <;> decide

theorem Compilation.not_saysUnknown {source : String} {r : Report}
    (h : r ∈ (ofSource source).reports) : ¬ SaysUnknown r.message := by
  rcases List.mem_append.1 h with h | h
  · obtain ⟨e, -, rfl⟩ := List.mem_map.1 h
    exact e.cause.not_saysUnknown
  · obtain ⟨e, -, rfl⟩ := List.mem_map.1 h
    exact e.cause.not_saysUnknown

namespace Session

/-- All operators and names that are read from a source are supported, also where it has errors. So
no report on a source says that an operator is unknown, and a fault is one of five, each at a token
of its own kind in the source. -/
theorem run_faults (source : String) :
    Stmt.AllSupported (Scan.ofSource source).stream.program.value
      ∧ ∀ (s : Session), ∀ r ∈ (s.run source).reports, ¬ SaysUnknown r.message
        ∧ (r.kind = .runtime → ∃ t ∈ (Scan.ofSource source).stream.ahead,
          t.Blamed r.message ∧ r.line = t.line) := by
  have hsupported : Stmt.AllSupported (Scan.ofSource source).stream.program.value :=
    Stmt.supported_parseAll _ fun _ => Scan.isName_of_mem_ahead
  refine ⟨hsupported, fun s r hr => ?_⟩
  rw [run_eq_runAs] at hr
  rcases mem_reports_runAs hr with ⟨hreports, fault, rfl, hf⟩ | ⟨hr, hkind⟩
  · have hblamed := Stmt.blamed_of_faultAll hsupported hf
    have hread := Grammar.errors_parseAll_iff.2 (Compilation.reports_eq_nil_iff.1 hreports).2
    have hsite := Stmt.mem_sitesAll_of_fault _ hf
    exact ⟨hblamed.not_saysUnknown, fun _ =>
      ⟨fault.token, (Grammar.mem_sitesAll_parseAll hread _ hsite).1, hblamed, rfl⟩⟩
  · exact ⟨Compilation.not_saysUnknown hr, fun h => absurd h hkind⟩

theorem run_faults_subtraction :
    let source := "print nil;\nprint true\n- nil;"
    let r : Report := ⟨.runtime, 3, .nowhere, "Operands must be numbers."⟩
    r ∈ (fresh.run source).reports
      ∧ ∃ t ∈ (Scan.ofSource source).stream.ahead, t.Blamed r.message ∧ r.line = t.line := by
  intro source r
  have hreports : (fresh.run source).reports = [r] := by
    unfold source r
    cbv
  have hr : r ∈ (fresh.run source).reports := by
    rw [hreports]
    exact List.mem_cons_self
  exact ⟨hr, ((run_faults source).2 fresh r hr).2 rfl⟩

end Session

end Scriptlet
