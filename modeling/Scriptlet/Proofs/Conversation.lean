import Scriptlet.CommandLine
import Scriptlet.Proofs.History

/-!
# A conversation is a fold over its lines

What the user types is cut after each line end (`Prompt.Cut`), in one way only. The prompt answers
the lines in one session up to the first that says `exit` or is no text, whatever errors and faults
they have, and it writes its sign before each line that it reads (`CommandLine.perform_prompt`).
What is typed after that line changes nothing.
-/

namespace Scriptlet

namespace Text

theorem decode?_eq_some_iff {bytes : List UInt8} {text : String} :
    decode? bytes = some text ↔ encode text = bytes := by
  constructor
  · intro h
    unfold decode? String.fromUTF8? at h
    split at h
    · cases h
      rfl
    · cases h
  · rintro rfl
    show String.fromUTF8? text.toByteArray = some text
    unfold String.fromUTF8?
    rw [dif_pos text.isValidUTF8]
    rfl

/-! ### White space around a text -/

/-- The code points of the characters that are white space. -/
def whiteSpace : List Nat :=
  [0x9, 0xa, 0xb, 0xc, 0xd, 0x20, 0x85, 0xa0, 0x1680, 0x2000, 0x2001, 0x2002, 0x2003, 0x2004,
   0x2005, 0x2006, 0x2007, 0x2008, 0x2009, 0x200a, 0x2028, 0x2029, 0x202f, 0x205f, 0x3000]

/-- What is left of a text without the white space around it. -/
structure Trimmed (whole text : String) : Prop where
  around : ∃ front back, whole.toList = front ++ text.toList ++ back
    ∧ (∀ c ∈ front, c.toNat ∈ whiteSpace) ∧ ∀ c ∈ back, c.toNat ∈ whiteSpace
  head : ∀ c ∈ text.toList.head?, c.toNat ∉ whiteSpace
  last : ∀ c ∈ text.toList.getLast?, c.toNat ∉ whiteSpace

theorem isBlank_iff {c : Char} : isBlank c = true ↔ c.toNat ∈ whiteSpace := by
  simp only [isBlank, whiteSpace, Bool.or_eq_true, Bool.and_eq_true, decide_eq_true_eq,
    beq_iff_eq, List.mem_cons, List.not_mem_nil, or_false]
  omega

theorem dropWhile_isBlank {front rest : List Char} (hfront : ∀ c ∈ front, c.toNat ∈ whiteSpace)
    (hrest : ∀ c ∈ rest.head?, c.toNat ∉ whiteSpace) :
    (front ++ rest).dropWhile isBlank = rest := by
  rw [List.dropWhile_append_of_pos fun c hc => isBlank_iff.2 (hfront c hc)]
  cases rest with
  | nil => rfl
  | cons c rest => exact List.dropWhile_cons_of_neg (mt isBlank_iff.1 (hrest c rfl))

theorem notMem_whiteSpace_of_head?_dropWhile {l : List Char} {c : Char}
    (h : c ∈ (l.dropWhile isBlank).head?) : c.toNat ∉ whiteSpace := by
  have hc := List.head?_dropWhile_not isBlank l
  rw [Option.mem_def.1 h] at hc
  exact mt isBlank_iff.2 (Bool.eq_false_iff.1 hc)

theorem trimmed_trim (whole : String) : Trimmed whole (trim whole) := by
  have hblank : ∀ {l : List Char}, ∀ c ∈ l.takeWhile isBlank, c.toNat ∈ whiteSpace :=
    fun c hc => isBlank_iff.1 (List.mem_takeWhile_imp hc)
  have hright := (List.takeWhile_append_dropWhile (p := isBlank)
    (l := (whole.toList.dropWhile isBlank).reverse)).symm
  rw [List.reverse_eq_iff, List.reverse_append] at hright
  refine ⟨⟨whole.toList.takeWhile isBlank,
    ((whole.toList.dropWhile isBlank).reverse.takeWhile isBlank).reverse, ?_, hblank, ?_⟩, ?_, ?_⟩
  · rw [trim, String.toList_ofList, List.append_assoc, ← hright, List.takeWhile_append_dropWhile]
  · exact fun c hc => hblank c (List.mem_reverse.1 hc)
  · intro c hc
    rw [trim, String.toList_ofList] at hc
    refine notMem_whiteSpace_of_head?_dropWhile (l := whole.toList) ?_
    rw [hright]
    exact List.mem_head?_append_of_mem_head? hc
  · intro c hc
    rw [trim, String.toList_ofList, List.getLast?_reverse] at hc
    exact notMem_whiteSpace_of_head?_dropWhile hc

/-- What is left is the text that trimming gives. -/
theorem trimmed_iff {whole text : String} : Trimmed whole text ↔ trim whole = text := by
  refine ⟨?_, fun h => h ▸ trimmed_trim whole⟩
  rintro ⟨⟨front, back, hwhole, hfront, hback⟩, hhead, hlast⟩
  have hleft : (whole.toList.dropWhile isBlank).reverse.dropWhile isBlank = text.toList.reverse := by
    rw [hwhole]
    by_cases hnil : text.toList = []
    · have hall : ∀ c ∈ front ++ back, c.toNat ∈ whiteSpace :=
        fun c hc => (List.mem_append.1 hc).elim (hfront c) (hback c)
      have hdropped : (front ++ back ++ []).dropWhile isBlank = [] :=
        dropWhile_isBlank hall (by simp)
      rw [List.append_nil] at hdropped
      rw [hnil, List.append_nil, hdropped]
      rfl
    · have hhead' : ∀ c ∈ (text.toList ++ back).head?, c.toNat ∉ whiteSpace := by
        rwa [List.head?_append_of_ne_nil _ hnil]
      rw [List.append_assoc, dropWhile_isBlank hfront hhead', List.reverse_append]
      refine dropWhile_isBlank (fun c hc => hback c (List.mem_reverse.1 hc)) ?_
      rwa [List.head?_reverse]
  rw [trim, hleft, List.reverse_reverse, String.ofList_toList]

end Text

namespace Prompt

/-! ### Lines -/

/-- Bytes and their lines: each line ends with the first line end, the byte 10; the last may have
none. -/
inductive Cut : List UInt8 → List (List UInt8) → Prop
  | nil : Cut [] []
  | last {line : List UInt8} (hne : line ≠ []) (h : 10 ∉ line) : Cut line [line]
  | line {front rest : List UInt8} {lines : List (List UInt8)} (h : 10 ∉ front)
      (hr : Cut rest lines) : Cut (front ++ 10 :: rest) ((front ++ [10]) :: lines)

theorem cutLine_of_notMem : ∀ {bytes : List UInt8}, 10 ∉ bytes →
    Transcript.cutLine bytes = (bytes, [])
  | [], _ => rfl
  | b :: bytes, h => by
    simp only [List.mem_cons, not_or] at h
    rw [Transcript.cutLine, if_neg (Ne.symm h.1), cutLine_of_notMem h.2]

theorem cutLine_append {rest : List UInt8} : ∀ {front : List UInt8}, 10 ∉ front →
    Transcript.cutLine (front ++ 10 :: rest) = (front ++ [10], rest)
  | [], _ => rfl
  | b :: front, h => by
    simp only [List.mem_cons, not_or] at h
    rw [List.cons_append, Transcript.cutLine, if_neg (Ne.symm h.1), cutLine_append h.2]
    rfl

/-- The first line is the one that is read. -/
theorem Cut.cutLine {input line : List UInt8} {lines : List (List UInt8)}
    (h : Cut input (line :: lines)) :
    line ≠ [] ∧ ∃ left, Transcript.cutLine input = (line, left) ∧ Cut left lines := by
  cases h with
  | last hne h => exact ⟨hne, [], cutLine_of_notMem h, .nil⟩
  | line h hr => exact ⟨by simp, _, cutLine_append h, hr⟩

theorem Cut.eq_nil {input : List UInt8} (h : Cut input []) : input = [] := by
  cases h
  rfl

/-- Bytes are cut in one way. -/
theorem Cut.unique {cut cut' : List (List UInt8)} : ∀ {input : List UInt8}, Cut input cut →
    Cut input cut' → cut = cut' := by
  induction cut generalizing cut' with
  | nil =>
    intro input h h'
    obtain rfl := h.eq_nil
    cases cut' with
    | nil => rfl
    | cons line' cut' =>
      obtain ⟨hne, left, hread, -⟩ := h'.cutLine
      exact absurd (congrArg Prod.fst hread).symm hne
  | cons line cut ih =>
    intro input h h'
    obtain ⟨hne, left, hread, hleft⟩ := h.cutLine
    cases cut' with
    | nil =>
      obtain rfl := h'.eq_nil
      exact absurd (congrArg Prod.fst hread).symm hne
    | cons line' cut' =>
      obtain ⟨-, left', hread', hleft'⟩ := h'.cutLine
      obtain ⟨rfl, rfl⟩ := Prod.mk.inj (hread.symm.trans hread')
      rw [ih hleft hleft']

theorem exists_cut (input : List UInt8) : ∃ lines, Cut input lines := by
  by_cases h : 10 ∈ input
  · obtain ⟨front, rest, heq, hfront⟩ := List.eq_append_cons_of_mem h
    have hlt : rest.length < input.length := by
      rw [heq, List.length_append, List.length_cons]
      omega
    obtain ⟨lines, hlines⟩ := exists_cut rest
    rw [heq]
    exact ⟨_, .line hfront hlines⟩
  · by_cases hne : input = []
    · rw [hne]
      exact ⟨_, .nil⟩
    · exact ⟨_, .last hne h⟩
termination_by input.length
decreasing_by exact hlt

/-- Lines up to one that has its line end are cut off alike, whatever follows them. -/
theorem Cut.append {front rest cut : List (List UInt8)} {more : List UInt8} (hmore : Cut more cut) :
    ∀ {input : List UInt8}, Cut input (front ++ rest) →
      (∀ line ∈ front.getLast?, line.getLast? = some 10) →
      Cut (front.flatten ++ more) (front ++ cut) := by
  induction front with
  | nil => exact fun _ _ => hmore
  | cons line front ih =>
    intro input h hlast
    generalize hcut : line :: front ++ rest = lines at h
    cases h with
    | nil => cases hcut
    | last hne h =>
      -- Nothing follows a line that has no line end, so that it would be the last in front.
      obtain ⟨rfl, hnil⟩ := List.cons.inj hcut
      obtain ⟨rfl, -⟩ := List.append_eq_nil_iff.1 hnil
      exact absurd (List.mem_of_getLast? (hlast line rfl)) h
    | @line start _ _ h hr =>
      obtain ⟨rfl, rfl⟩ := List.cons.inj hcut
      have hfront : ∀ l ∈ front.getLast?, l.getLast? = some 10 := by
        intro l hl
        refine hlast l ?_
        rw [List.getLast?_cons, hl]
        rfl
      rw [List.flatten_cons, List.append_assoc, List.append_assoc]
      exact .line h (ih hr hfront)

/-! ### What a line says -/

/-- No text is encoded as the line. -/
def Unreadable (line : List UInt8) : Prop :=
  ∀ whole, Text.encode whole ≠ line

/-- The line is the encoding of a text that has no more than white space around this one. -/
def Says (line : List UInt8) (text : String) : Prop :=
  ∃ whole, Text.encode whole = line ∧ Text.Trimmed whole text

/-- The line is no text, or it says `exit`. -/
def Stops (line : List UInt8) : Prop :=
  Unreadable line ∨ Says line "exit"

variable {line : List UInt8} {text : String}

theorem decode?_of_unreadable (h : Unreadable line) : Text.decode? line = none := by
  cases hd : Text.decode? line with
  | none => rfl
  | some whole => exact absurd (Text.decode?_eq_some_iff.1 hd) (h whole)

theorem Says.decode? (h : Says line text) :
    ∃ whole, Text.decode? line = some whole ∧ Text.trim whole = text := by
  obtain ⟨whole, hencode, htrimmed⟩ := h
  exact ⟨whole, Text.decode?_eq_some_iff.2 hencode, Text.trimmed_iff.1 htrimmed⟩

theorem Says.not_unreadable (h : Says line text) : ¬ Unreadable line := by
  obtain ⟨whole, hencode, -⟩ := h
  exact fun hun => hun whole hencode

theorem exists_said (h : ¬ Unreadable line) : ∃ text, Says line text := by
  obtain ⟨whole, hencode⟩ := not_forall_not.1 h
  exact ⟨Text.trim whole, whole, hencode, Text.trimmed_trim whole⟩

/-! ### Answers -/

/-- What is written for an answer: the sign, and each line that the program printed. -/
def written (a : Answer) : String :=
  "> " ++ String.join (a.printed.map (· ++ "\n"))

/-- What is written to the error output for an answer: its reports, line by line. The statements
that are shown come after the errors of a source and before the fault of a program. -/
def complained (shown : Bool) (a : Answer) : String :=
  let statements := if shown then a.program.map Stmt.prefixForm else []
  let reports := a.reports.map Report.text
  String.join ((if a.status = .compileError then reports ++ statements
    else statements ++ reports).map (· ++ "\n"))

/-- Errors of a source and faults are never reported together, so that this order is the one in
which the prompt writes them. -/
theorem err_of_settled {s : Session} {a : Answer} (h : a.Settled s) (shown : Bool) :
    a.err shown = complained shown a := by
  rcases h.some_way with h | h | h
  · have herrors : ∀ r ∈ a.reports, r.kind ≠ .runtime := h.ofErrors.kind_ne_runtime
    have hpartition : a.reports.partition (fun r => r.kind = .runtime) = ([], a.reports) := by
      rw [List.partition_eq_filter_filter, List.filter_eq_nil_iff.2 (by simpa using herrors),
        List.filter_eq_self.2 (by simpa using herrors)]
    simp only [Answer.err, hpartition, complained, if_pos h.status, List.map_nil, List.append_nil]
    rfl
  · obtain ⟨r, hr, hkind⟩ := h.reports
    simp [Answer.err, complained, Console.ofLines, h.status, hr, hkind,
      List.partition_eq_filter_filter]
  · simp [Answer.err, complained, Console.ofLines, h.status, h.reports]

/-! ### Turns -/

section Recorded

variable (find : String → Found) (shown : Bool) (s : Session) {s' : Session} {t t' : Transcript}
  {left : List UInt8}

theorem run_turn_of_nil (h : t.input = []) :
    (turn (.recorded find) shown s).run t = (.inr 0, ⟨[], t.out ++ "> ", t.err⟩) := by
  obtain ⟨input, out, err⟩ := t
  obtain rfl : input = [] := h
  rfl

theorem run_turn_of_unreadable (hne : line ≠ [])
    (hread : Transcript.cutLine t.input = (line, left)) (h : Unreadable line) :
    (turn (.recorded find) shown s).run t = (.inr 1,
      ⟨left, t.out ++ "> ", t.err ++ "stream did not contain valid UTF-8\n"⟩) := by
  have hnot : Console.ofLines [Script.notText] = "stream did not contain valid UTF-8\n" := by
    decide
  simp only [turn, World.recorded, StateT.run_bind, StateT.run_modify, StateT.run_modifyGet,
    pure_bind, hread, if_neg hne, decode?_of_unreadable h, hnot]
  rfl

/-- A text is answered, unless it says `exit`. -/
theorem run_turn_of_text (hne : line ≠ []) (hread : Transcript.cutLine t.input = (line, left))
    (h : Says line text) :
    let a := s.runLine text
    (turn (.recorded find) shown s).run t =
      if text = "exit" then (.inr 0, ⟨left, t.out ++ "> ", t.err⟩)
      else (.inl a.session, ⟨left, t.out ++ written a, t.err ++ complained shown a⟩) := by
  obtain ⟨whole, hdecode, rfl⟩ := h.decode?
  have hsettled := s.settled_runLine (Text.trim whole)
  simp only [turn, World.recorded, StateT.run_bind, StateT.run_modify, StateT.run_modifyGet,
    pure_bind, hread, if_neg hne, hdecode, ← err_of_settled hsettled, written,
    ← String.append_assoc]
  by_cases hexit : Text.trim whole = farewell
  · simp only [if_pos hexit]
    exact (if_pos hexit).symm
  · simp only [if_neg hexit]
    exact (if_neg hexit).symm

variable {find shown s} in
theorem run_converse_of_inl (h : (turn (.recorded find) shown s).run t = (.inl s', t')) :
    (converse (.recorded find) shown s).run t = (converse (.recorded find) shown s').run t' := by
  rw [converse, repeatM_eq_of_monadTail, repeatM.body, StateT.run_bind, h]
  rfl

variable {find shown s} in
theorem run_converse_of_inr {code : Nat}
    (h : (turn (.recorded find) shown s).run t = (.inr code, t')) :
    (converse (.recorded find) shown s).run t = (code, t') := by
  rw [converse, repeatM_eq_of_monadTail, repeatM.body, StateT.run_bind, h]
  rfl

/-! ### Whole conversations -/

/-- Lines that do not stop the prompt are answered in one session, and it goes on from there. -/
theorem run_converse_append {before rest : List (List UInt8)} {texts : List String}
    (hsaid : List.Forall₂ Says before texts) (hgo : ∀ text ∈ texts, text ≠ "exit")
    (hcut : Cut t.input (before ++ rest)) :
    let requests := texts.map .line
    ∃ left, Cut left rest
      ∧ (converse (.recorded find) shown s).run t
        = (converse (.recorded find) shown (s.after requests)).run
          ⟨left, t.out ++ String.join ((s.answers requests).map written),
            t.err ++ String.join ((s.answers requests).map (complained shown))⟩ := by
  induction hsaid generalizing s t with
  | nil => exact ⟨t.input, hcut, by simp [Session.after, Session.answers]⟩
  | @cons line text before texts hline _ ih =>
    obtain ⟨htext, hgo⟩ := List.forall_mem_cons.1 hgo
    obtain ⟨hne, left, hread, hleft⟩ := hcut.cutLine
    have hturn := (run_turn_of_text find shown s hne hread hline).trans (if_neg htext)
    obtain ⟨left', hleft', hrun⟩ := ih (s.runLine text).session
      (t := ⟨left, t.out ++ written (s.runLine text), t.err ++ complained shown (s.runLine text)⟩)
      hgo hleft
    refine ⟨left', hleft', ?_⟩
    rw [run_converse_of_inl hturn, hrun]
    simp [Session.after, Session.answers, Session.answer, String.append_assoc]

/-- Where the lines stop the prompt, or end, only the sign is written, and the error if there is
one. -/
theorem run_converse_of_stops {rest : List (List UInt8)} (hcut : Cut t.input rest)
    (hstops : ∀ line ∈ rest.head?, Stops line) :
    ∃ left code error, (converse (.recorded find) shown s).run t
        = (code, ⟨left, t.out ++ "> ", t.err ++ error⟩)
      ∧ ((∀ line ∈ rest.head?, ¬ Unreadable line) → error = "" ∧ code = 0)
      ∧ ((∃ line ∈ rest.head?, Unreadable line) →
        error = "stream did not contain valid UTF-8\n" ∧ code = 1) := by
  cases rest with
  | nil =>
    refine ⟨[], 0, "", ?_, fun _ => ⟨rfl, rfl⟩, by simp⟩
    rw [run_converse_of_inr (run_turn_of_nil find shown s hcut.eq_nil), String.append_empty]
  | cons line rest =>
    obtain ⟨hne, left, hread, -⟩ := hcut.cutLine
    rcases hstops line rfl with hline | hline
    · have hturn := run_turn_of_unreadable find shown s hne hread hline
      exact ⟨left, 1, _, run_converse_of_inr hturn, fun hread => absurd hline (hread line rfl),
        fun _ => ⟨rfl, rfl⟩⟩
    · have hturn := (run_turn_of_text find shown s hne hread hline).trans (if_pos rfl)
      refine ⟨left, 0, "", ?_, fun _ => ⟨rfl, rfl⟩, ?_⟩
      · rw [run_converse_of_inr hturn, String.append_empty]
      · rintro ⟨line', ⟨⟩, hun⟩
        exact absurd hun hline.not_unreadable

end Recorded

/-- An input with its lines before the first that stops the prompt, its lines from there on, and
what the former say. -/
structure Heard (input : List UInt8) (before rest : List (List UInt8)) (texts : List String) :
    Prop where
  cut : ∀ lines, Cut input lines ↔ lines = before ++ rest
  said : List.Forall₂ Says before texts
  goes_on : ∀ text ∈ texts, text ≠ "exit"
  stops : ∀ line ∈ rest.head?, Stops line

/-- What a conversation with these answers writes and how it ends, given the lines from the first
one on that stopped it. -/
structure Ends (shown : Bool) (rest : List (List UInt8)) (answers : List Answer) (c : Console) :
    Prop where
  out : c.out = String.join (answers.map written) ++ "> "
  left : (∀ line ∈ rest.head?, ¬ Unreadable line) →
    c.err = String.join (answers.map (complained shown)) ∧ c.exitCode = 0
  failed : (∃ line ∈ rest.head?, Unreadable line) →
    c.err = String.join (answers.map (complained shown)) ++ "stream did not contain valid UTF-8\n"
      ∧ c.exitCode = 1

theorem exists_stop : ∀ lines : List (List UInt8), ∃ before rest texts, before ++ rest = lines
    ∧ List.Forall₂ Says before texts ∧ (∀ text ∈ texts, text ≠ "exit")
    ∧ ∀ line ∈ rest.head?, Stops line
  | [] => ⟨[], [], [], rfl, .nil, by simp, by simp⟩
  | line :: lines => by
    by_cases h : Stops line
    · exact ⟨[], line :: lines, [], rfl, .nil, by simp, by simpa using h⟩
    · obtain ⟨hread, hexit⟩ := not_or.1 h
      obtain ⟨text, htext⟩ := exists_said hread
      obtain ⟨before, rest, texts, rfl, hsaid, hgo, hrest⟩ := exists_stop lines
      refine ⟨line :: before, rest, text :: texts, rfl, .cons htext hsaid,
        List.forall_mem_cons.2 ⟨?_, hgo⟩, hrest⟩
      rintro rfl
      exact hexit htext

theorem Heard.of_cut {input : List UInt8} {before rest : List (List UInt8)} {texts : List String}
    (hcut : Cut input (before ++ rest)) (hsaid : List.Forall₂ Says before texts)
    (hgo : ∀ text ∈ texts, text ≠ "exit") (hstops : ∀ line ∈ rest.head?, Stops line) :
    Heard input before rest texts where
  cut lines := by
    refine ⟨fun h => h.unique hcut, ?_⟩
    rintro rfl
    exact hcut
  said := hsaid
  goes_on := hgo
  stops := hstops

theorem exists_heard (input : List UInt8) : ∃ before rest texts, Heard input before rest texts := by
  obtain ⟨lines, hlines⟩ := exists_cut input
  obtain ⟨before, rest, texts, rfl, hsaid, hgo, hstops⟩ := exists_stop lines
  exact ⟨before, rest, texts, .of_cut hlines hsaid hgo hstops⟩

/-- The lines that are heard settle what a conversation writes and how it ends. -/
theorem ends_converse {input : List UInt8} {before rest : List (List UInt8)} {texts : List String}
    (h : Heard input before rest texts) (find : String → Found) (shown : Bool) :
    Ends shown rest (Session.fresh.answers (texts.map .line))
      (Console.record (converse (.recorded find) shown .fresh) input) := by
  obtain ⟨hcut, hsaid, hgo, hstops⟩ := h
  obtain ⟨left, hleft, hbefore⟩ := run_converse_append find shown .fresh (t := { input }) hsaid hgo
    ((hcut _).2 rfl)
  obtain ⟨left', code, error, hend, hread, hun⟩ :=
    run_converse_of_stops find shown _ (t := ⟨left, _, _⟩) hleft hstops
  have hrun := hbefore.trans hend
  simp only [String.empty_append] at hrun
  rw [Console.record, hrun]
  refine ⟨rfl, fun h => ?_, fun h => ?_⟩
  · obtain ⟨rfl, rfl⟩ := hread h
    exact ⟨String.append_empty, rfl⟩
  · obtain ⟨rfl, rfl⟩ := hun h
    exact ⟨rfl, rfl⟩

/-- The lines that follow the one that stopped the prompt have no part in how it ends. -/
theorem Ends.unique {shown : Bool} {rest rest' : List (List UInt8)} {answers : List Answer}
    {c c' : Console} (h : Ends shown rest answers c) (h' : Ends shown rest' answers c')
    (hhead : rest.head? = rest'.head?) : c = c' := by
  have hsame : c.err = c'.err ∧ c.exitCode = c'.exitCode := by
    by_cases hun : ∃ line ∈ rest.head?, Unreadable line
    · obtain ⟨herr, hcode⟩ := h.failed hun
      obtain ⟨herr', hcode'⟩ := h'.failed (hhead ▸ hun)
      exact ⟨herr.trans herr'.symm, hcode.trans hcode'.symm⟩
    · have hread : ∀ line ∈ rest.head?, ¬ Unreadable line := by simpa using hun
      obtain ⟨herr, hcode⟩ := h.left hread
      obtain ⟨herr', hcode'⟩ := h'.left (hhead ▸ hread)
      exact ⟨herr.trans herr'.symm, hcode.trans hcode'.symm⟩
  obtain ⟨out, err, code⟩ := c
  obtain ⟨out', err', code'⟩ := c'
  obtain rfl : out = out' := h.out.trans h'.out.symm
  obtain ⟨rfl, rfl⟩ : err = err' ∧ code = code' := hsame
  rfl

end Prompt

open Prompt in
/-- The prompt answers the lines up to the first that says `exit` or is no text in one session. It
writes `> ` and the lines printed for each of them, and `> ` once more at the end. The exit code
tells of nothing but a line that is no text, and what follows the line that stopped the prompt
changes nothing. -/
theorem CommandLine.perform_prompt (find : String → Found) (shown : Bool) (input : List UInt8) :
    let prompt := perform (.recorded find) (.prompt shown)
    (∃ before rest texts, Heard input before rest texts)
      ∧ ∀ {before rest texts}, Heard input before rest texts →
        Ends shown rest (Session.fresh.answers (texts.map .line)) (Console.record prompt input)
          ∧ ∀ line ∈ rest.head?, line.getLast? = some 10 →
            ∀ more, Console.record prompt ((before ++ [line]).flatten ++ more)
              = Console.record prompt input := by
  intro prompt
  refine ⟨exists_heard input, fun {before rest texts} h => ⟨ends_converse h find shown, ?_⟩⟩
  intro line hline hend more
  obtain ⟨after, rfl⟩ := List.head?_eq_some_iff.1 hline
  obtain ⟨cut, hmore⟩ := exists_cut more
  have hcut : Cut input (before ++ [line] ++ after) := by simpa using (h.cut _).2 rfl
  have hagain := hmore.append hcut (by simpa using hend)
  rw [List.append_assoc] at hagain
  exact (ends_converse (.of_cut hagain h.said h.goes_on h.stops) find shown).unique
    (ends_converse h find shown) rfl

open Prompt in
/-- The second line is no program. The third one ends the prompt, so that the fourth one, which is
no text, is not read. -/
theorem CommandLine.perform_prompt_leaves :
    let prompt := perform (.recorded fun _ => .missing) (.prompt true)
    let exit : List UInt8 := [9, 101, 120, 105, 116, 13, 10]
    let before : List (List UInt8) :=
      [[112, 114, 105, 110, 116, 32, 110, 105, 108, 59, 10], [32, 110, 105, 108, 32, 43, 10]]
    let c : Console :=
      ⟨"> nil\n> > ", "(print nil)\n[line 2] Error at ';': Expect expression.\n", 0⟩
    Heard (before ++ [exit, [255]]).flatten before [exit, [255]] ["print nil;", "nil +"]
      ∧ Console.record prompt (before ++ [exit, [255]]).flatten = c
      ∧ ∀ more, Console.record prompt ((before ++ [exit]).flatten ++ more) = c := by
  intro prompt exit before c
  have hprint : Text.encode "print nil;\n"
      = [112, 114, 105, 110, 116, 32, 110, 105, 108, 59, 10] := by decide
  have hnil : Text.encode " nil +\n" = [32, 110, 105, 108, 32, 43, 10] := by decide
  have hexit : Text.encode "\texit\r\n" = exit := by decide
  have hstops : Says exit "exit" := ⟨_, hexit, Text.trimmed_iff.2 (by decide)⟩
  have hheard : Heard (before ++ [exit, [255]]).flatten before [exit, [255]]
      ["print nil;", "nil +"] := by
    refine .of_cut ?_ (.cons ⟨_, hprint, Text.trimmed_iff.2 (by decide)⟩
      (.cons ⟨_, hnil, Text.trimmed_iff.2 (by decide)⟩ .nil)) (by decide) ?_
    · exact @Cut.line [112, 114, 105, 110, 116, 32, 110, 105, 108, 59] _ _ (by decide) <|
        @Cut.line [32, 110, 105, 108, 32, 43] _ _ (by decide) <|
          @Cut.line [9, 101, 120, 105, 116, 13] _ _ (by decide) <|
            @Cut.last [255] (by decide) (by decide)
    · rintro line ⟨⟩
      exact .inr hstops
  obtain ⟨hends, hmore⟩ := (perform_prompt (fun _ => .missing) true _).2 hheard
  have hc : Ends true [exit, [255]] (Session.fresh.answers [.line "print nil;", .line "nil +"])
      c := by
    refine ⟨by cbv, fun _ => ⟨by cbv, rfl⟩, ?_⟩
    rintro ⟨line, ⟨⟩, hun⟩
    exact absurd hun hstops.not_unreadable
  have hrecord := hends.unique hc rfl
  exact ⟨hheard, hrecord, fun more => (hmore _ rfl rfl more).trans hrecord⟩

end Scriptlet
