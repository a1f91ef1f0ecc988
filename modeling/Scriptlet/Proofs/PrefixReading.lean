import Scriptlet.Proofs.Forms
import Scriptlet.Proofs.KeptTokens
import Scriptlet.Proofs.Numerals
import Scriptlet.Proofs.Supported

/-!
# Trees are read back from their prefix forms

A form stands for a tree (`Form.toExpr`, `Form.toStmt`): its head and the number of its parts tell
the node, and a word is a constant or else a name. A tree that is read from a source without quoted
texts and infinite numbers is what its form stands for, but for the lines of its tokens
(`Expr.shows_form`, `Stmt.shows_form`). So two such trees with one prefix form are one tree
(`Scan.reline_eq_of_prefixForm_eq`).
-/

namespace Scriptlet

namespace Form

/-! ### Trees that forms stand for -/

/-- The tree of a word: a constant, or else a name. -/
def ofWord (text : List Char) : Expr :=
  if text = "nil".toList then .literal .nil
  else if text = "true".toList then .literal (.bool true)
  else if text = "false".toList then .literal (.bool false)
  else
    match Decimal.parse? text with
    | some d => .literal (.number d.toFloat)
    | none => .name (.ident (String.ofList text) 1)

/-- The operator that is the head of a form. -/
def operator (head : List Char) : Token :=
  ⟨(Kind.ofMark? head).getD .eof, String.ofList head, .nil, 1⟩

/-- The name that a form is, if it is a word. -/
def toName : Form → Token
  | word text => .ident (String.ofList text) 1
  | node _ _ => .ident "" 1

/-- The expression that a form stands for; forms of no expression stand for nil. -/
def toExpr : Form → Expr
  | word text => ofWord text
  | node head [part] =>
    if head = "group".toList then .group part.toExpr else .unary (operator head) part.toExpr
  | node head [left, right] =>
    if head = "=".toList then .assign left.toName right.toExpr
    else .binary left.toExpr (operator head) right.toExpr
  | _ => .literal .nil

/-- The statement with this head and these parts, if it is no block; a declaration has any other
head. -/
def toSimple (head : List Char) : List Form → Stmt
  | [part] =>
    if head = ";".toList then .expression part.toExpr
    else if head = "print".toList then .print part.toExpr
    else .declare part.toName none
  | [name, initial] => .declare name.toName (some initial.toExpr)
  | _ => .block []

mutual

/-- The statement that a form stands for; forms of no statement stand for an empty block. -/
def toStmt : Form → Stmt
  | word _ => .block []
  | node head parts =>
    if head = "block".toList then .block (toStmts parts) else toSimple head parts

def toStmts : List Form → List Stmt
  | [] => []
  | f :: rest => f.toStmt :: toStmts rest

end

end Form

/-! ### Operators and names -/

namespace Lexicon

/-- An operator is a mark. -/
theorem Spelled.mem_marks {t : Token} (h : Spelled t)
    (hk : t.kind ∈ Kind.unaryOperators ++ Kind.binaryOperators) :
    (t.lexeme.toList, t.kind) ∈ Kind.marks ∧ t.literal = .nil := by
  cases h.spelling with
  | mark hm hn => exact ⟨hm, hn⟩
  | word _ hword =>
    exfalso
    rw [hword] at hk
    rcases ofWord_cases t.lexeme with hname | hreserved
    · exact absurd hk (by rw [hname]; decide)
    · exact (by decide : ∀ entry ∈ Kind.reserved,
        entry.2 ∉ Kind.unaryOperators ++ Kind.binaryOperators) _ hreserved hk
  | number hn => exact absurd hk (by rw [hn]; decide)
  | quoted hq => exact absurd hk (by rw [hq]; decide)

/-- A name stands for no value. -/
theorem Spelled.literal_of_name {t : Token} (h : Spelled t) (hk : t.kind = .identifier) :
    t.literal = .nil := by
  cases h.spelling with
  | mark _ hn => exact hn
  | word _ _ hn => exact hn
  | number hn => exact absurd (hk.symm.trans hn) (by decide)
  | quoted hq => exact absurd (hk.symm.trans hq) (by decide)

end Lexicon

namespace Form

open Lexicon

theorem plain_of_forall {text : List Char} (h : ∀ c ∈ text, (Letter c ∨ Digit c) ∨ c = '.') :
    Plain text := by
  intro c hc hsep
  have hclass := h c hc
  simp only [List.mem_cons, List.not_mem_nil, or_false] at hsep
  rcases hsep with rfl | rfl | rfl
  all_goals exact absurd hclass (by decide)

theorem plain_word {text : List Char} (h : Matches .word text) : Plain text := by
  cases h with
  | word hc hr =>
    exact plain_of_forall
      (List.forall_mem_cons.2 ⟨.inl (.inl hc), fun d hd => .inl (hr d hd)⟩)

theorem plain_number {text : List Char} (h : Matches .number text) : Plain text :=
  plain_of_forall fun c hc => (h.mem_number c hc).imp_left .inr

/-- No operator has a character that parts forms, and none is a head of another node. -/
theorem operator_head {text : List Char} {kind : Kind} (h : (text, kind) ∈ Kind.marks)
    (hk : kind ∈ Kind.unaryOperators ++ Kind.binaryOperators) :
    Plain text ∧ text ≠ "group".toList ∧ text ≠ "=".toList := by
  have key : ∀ entry ∈ Kind.marks, entry.2 ∈ Kind.unaryOperators ++ Kind.binaryOperators →
      Plain entry.1 ∧ entry.1 ≠ "group".toList ∧ entry.1 ≠ "=".toList := by
    decide
  exact key _ h hk

/-- An operator is read back from its spelling. -/
theorem operator_lexeme {t : Token} (hm : (t.lexeme.toList, t.kind) ∈ Kind.marks)
    (hn : t.literal = .nil) : operator t.lexeme.toList = t.reline fun _ => 1 := by
  rw [operator, ofMark?_eq_some_iff.2 hm, Option.getD_some, String.ofList_toList, ← hn]
  rfl

/-- A name is read back from its spelling. -/
theorem ident_lexeme {t : Token} (h : t.IsName) (hs : Spelled t) :
    Token.ident (String.ofList t.lexeme.toList) 1 = t.reline fun _ => 1 := by
  rw [String.ofList_toList, Token.ident, ← h.kind, ← hs.literal_of_name h.kind]
  rfl

theorem ofWord_lexeme {t : Token} (h : t.IsName) (hs : Spelled t) :
    ofWord t.lexeme.toList = .name (t.reline fun _ => 1) := by
  -- What is read as a number is matched by the rule of numbers, and a text by one rule only.
  have hparse : Decimal.parse? t.lexeme.toList = none := by
    by_contra hne
    obtain ⟨d, hd⟩ := Option.ne_none_iff_exists'.1 hne
    exact absurd ((matches_of_parse? hd).rule_unique h.word) (by decide)
  have hword : ∀ word kind, (word, kind) ∈ Kind.reserved → t.lexeme.toList ≠ word.toList := by
    intro word kind hr heq
    exact h.not_reserved kind (String.toList_inj.1 heq ▸ hr)
  rw [ofWord, if_neg (hword "nil" .kwNil (by decide)), if_neg (hword "true" .kwTrue (by decide)),
    if_neg (hword "false" .kwFalse (by decide)), hparse]
  exact congrArg Expr.name (ident_lexeme h hs)

end Form

/-- The value is no text and no infinite number. -/
def Value.Bounded : Value → Prop
  | .nil | .bool _ => True
  | .number x => x.isInf = false
  | .string _ => False

instance : DecidablePred Value.Bounded
  | .nil | .bool _ => isTrue trivial
  | .number x => decEq x.isInf false
  | .string _ => isFalse id

/-- The value is no text, and if it is a number, then it is finite and not negative. -/
def Value.Legible : Value → Prop
  | .nil | .bool _ => True
  | .number x => Decimal.IsMagnitude x
  | .string _ => False

/-- A value has to be legible, a name or an operator to be what its lexeme stands for. -/
def Token.Content.Legible : Content → Prop
  | .structural _ => True
  | .constant v => v.Legible
  | .word t => Lexicon.Spelled t

/-- The form is plain, and what it stands for is the expression but for its lines. -/
structure Form.Shows (f : Form) (e : Expr) : Prop where
  plain : f.IsPlain
  reads : f.toExpr = e.reline fun _ => 1

namespace Value

theorem shows_display {v : Value} (h : v.Legible) :
    (Form.word v.display.toList).Shows (.literal v) := by
  match v, h with
  | .nil, _ => exact ⟨(by decide : Form.Plain "nil".toList), rfl⟩
  | .bool true, _ => exact ⟨(by decide : Form.Plain "true".toList), rfl⟩
  | .bool false, _ => exact ⟨(by decide : Form.Plain "false".toList), rfl⟩
  | .number x, h =>
    obtain ⟨d, hd, rfl⟩ := Option.map_eq_some_iff.1 (Decimal.readsBack_of_isMagnitude h)
    have hnot : ∀ word ∈ ["nil", "true", "false"],
        (Decimal.display .plain d.toFloat).toList ≠ word.toList := by
      intro word hword heq
      rw [heq] at hd
      have hnone : ∀ word ∈ ["nil", "true", "false"], Decimal.parse? word.toList = none := by decide
      rw [hnone word hword] at hd
      cases hd
    refine ⟨Form.plain_number (Lexicon.matches_of_parse? hd), ?_⟩
    show Form.ofWord (Decimal.display .plain d.toFloat).toList = _
    rw [Form.ofWord, if_neg (hnot "nil" (by decide)), if_neg (hnot "true" (by decide)),
      if_neg (hnot "false" (by decide)), hd]
    rfl

end Value

open Form in
theorem Expr.shows_form {e : Expr} (h : e.Supported) (hsaid : ∀ c ∈ e.contents, c.Legible) :
    e.form.Shows e := by
  induction e with
  | literal v => exact Value.shows_display (hsaid (.constant v) List.mem_cons_self)
  | group inner ih =>
    have hinner : ∀ c ∈ inner.contents, c.Legible :=
      fun c hc => hsaid c (List.mem_cons_of_mem _ (List.mem_append_left _ hc))
    obtain ⟨hplain, hreads⟩ := ih h hinner
    refine ⟨⟨(by decide : Plain "group".toList), hplain, trivial⟩, ?_⟩
    rw [form, toExpr, if_pos rfl, hreads, reline]
  | unary operator right ih =>
    obtain ⟨hs, hright⟩ := List.forall_mem_cons.1 hsaid
    obtain ⟨hplain, hreads⟩ := ih h.2 hright
    have hk := List.mem_append_left Kind.binaryOperators h.1
    obtain ⟨hm, hn⟩ := Lexicon.Spelled.mem_marks hs hk
    obtain ⟨hhead, hgroup, -⟩ := operator_head hm hk
    refine ⟨⟨hhead, hplain, trivial⟩, ?_⟩
    rw [form, toExpr, if_neg hgroup, hreads, operator_lexeme hm hn, reline]
  | binary left operator right ihl ihr =>
    obtain ⟨hleft, hsaid⟩ := List.forall_mem_append.1 hsaid
    obtain ⟨hs, hright⟩ := List.forall_mem_cons.1 hsaid
    obtain ⟨hplainl, hreadsl⟩ := ihl h.1 hleft
    obtain ⟨hplainr, hreadsr⟩ := ihr h.2.2 hright
    have hk := List.mem_append_right Kind.unaryOperators h.2.1
    obtain ⟨hm, hn⟩ := Lexicon.Spelled.mem_marks hs hk
    obtain ⟨hhead, -, hequals⟩ := operator_head hm hk
    refine ⟨⟨hhead, hplainl, hplainr, trivial⟩, ?_⟩
    rw [form, toExpr, if_neg hequals, hreadsl, hreadsr, operator_lexeme hm hn, reline]
  | name token =>
    have hs : Lexicon.Spelled token := hsaid (.word token) List.mem_cons_self
    exact ⟨plain_word h.word, ofWord_lexeme h hs⟩
  | assign target value ih =>
    obtain ⟨hs, hsaid⟩ := List.forall_mem_cons.1 hsaid
    obtain ⟨hplain, hreads⟩ := ih h.2 (List.forall_mem_cons.1 hsaid).2
    refine ⟨⟨(by decide : Plain "=".toList), plain_word h.1.word, hplain, trivial⟩, ?_⟩
    rw [form, toExpr, if_pos rfl, hreads, toName, ident_lexeme h.1 hs, reline]

mutual

theorem Stmt.shows_form : ∀ {stmt : Stmt}, stmt.Supported → (∀ c ∈ stmt.contents, c.Legible) →
    stmt.form.IsPlain ∧ stmt.form.toStmt = stmt.reline fun _ => 1
  | .expression e, h, hsaid => by
    obtain ⟨hplain, hreads⟩ := Expr.shows_form h (List.forall_mem_append.1 hsaid).1
    refine ⟨⟨(by decide : Form.Plain ";".toList), hplain, trivial⟩, ?_⟩
    rw [form, Form.toStmt, if_neg (by decide), Form.toSimple, if_pos rfl, hreads, reline]
  | .print e, h, hsaid => by
    obtain ⟨-, hsaid⟩ := List.forall_mem_cons.1 hsaid
    obtain ⟨hplain, hreads⟩ := Expr.shows_form h (List.forall_mem_append.1 hsaid).1
    refine ⟨⟨(by decide : Form.Plain "print".toList), hplain, trivial⟩, ?_⟩
    rw [form, Form.toStmt, if_neg (by decide), Form.toSimple, if_neg (by decide), if_pos rfl,
      hreads, reline]
  | .block body, h, hsaid => by
    obtain ⟨-, hsaid⟩ := List.forall_mem_cons.1 hsaid
    obtain ⟨hplain, hreads⟩ := Stmt.shows_forms h (List.forall_mem_append.1 hsaid).1
    refine ⟨⟨(by decide : Form.Plain "block".toList), hplain⟩, ?_⟩
    rw [form, Form.toStmt, if_pos rfl, hreads, reline]
  | .declare name none, h, hsaid => by
    obtain ⟨-, hsaid⟩ := List.forall_mem_cons.1 hsaid
    have hname := Form.ident_lexeme h (List.forall_mem_cons.1 hsaid).1
    refine ⟨⟨(by decide : Form.Plain "var".toList), Form.plain_word h.word, trivial⟩, ?_⟩
    rw [form, Form.toStmt, if_neg (by decide), Form.toSimple, if_neg (by decide),
      if_neg (by decide), Form.toName, hname, reline, Option.map_none]
  | .declare name (some e), h, hsaid => by
    obtain ⟨-, hsaid⟩ := List.forall_mem_cons.1 hsaid
    obtain ⟨hs, hsaid⟩ := List.forall_mem_cons.1 hsaid
    obtain ⟨-, he⟩ := List.forall_mem_cons.1 (List.forall_mem_append.1 hsaid).1
    obtain ⟨hplain, hreads⟩ := Expr.shows_form h.2 he
    have hname := Form.ident_lexeme h.1 hs
    refine ⟨⟨(by decide : Form.Plain "var".toList), Form.plain_word h.1.word, hplain, trivial⟩, ?_⟩
    rw [form, Form.toStmt, if_neg (by decide), Form.toSimple, Form.toName, hname, hreads, reline,
      Option.map_some]

theorem Stmt.shows_forms : ∀ {program : List Stmt}, Stmt.AllSupported program →
    (∀ c ∈ Stmt.contentsAll program, c.Legible) →
    Form.AllPlain (Stmt.forms program)
      ∧ Form.toStmts (Stmt.forms program) = Stmt.relineAll (fun _ => 1) program
  | [], _, _ => ⟨trivial, rfl⟩
  | stmt :: rest, h, hsaid => by
    obtain ⟨hstmt, hrest⟩ := List.forall_mem_append.1 hsaid
    obtain ⟨hplain, hreads⟩ := Stmt.shows_form h.1 hstmt
    obtain ⟨hplains, hreadss⟩ := Stmt.shows_forms h.2 hrest
    refine ⟨⟨hplain, hplains⟩, ?_⟩
    rw [forms, Form.toStmts, hreads, hreadss, relineAll]

end

/-! ### Trees of a source -/

theorem Token.legible_literal {t : Token} (h : Lexicon.Spelled t) (hb : t.literal.Bounded) :
    t.literal.Legible := by
  cases h.spelling with
  | mark _ hn | word _ _ hn =>
    rw [hn]
    trivial
  | number _ hn =>
    rw [hn] at hb ⊢
    exact Decimal.isMagnitude_toFloat hb
  | quoted _ hn =>
    rw [hn] at hb
    exact hb.elim

theorem Token.legible_content {t : Token} (h : Lexicon.Spelled t) (hb : t.literal.Bounded) :
    t.content.Legible := by
  rw [content]
  split
  · trivial
  split
  · rename_i value hvalue
    rw [Expr.constant?] at hvalue
    split at hvalue
    all_goals cases hvalue
    case h_4 | h_5 => exact legible_literal h hb
    all_goals trivial
  · exact h

/-- What a statement says a program with it says. -/
theorem Stmt.contents_subset : ∀ {program : List Stmt} {stmt : Stmt}, stmt ∈ program →
    stmt.contents ⊆ Stmt.contentsAll program
  | _ :: _, _, h => by
    rw [contentsAll]
    rcases List.mem_cons.1 h with rfl | h
    · exact List.subset_append_left _ _
    · exact List.Subset.trans (Stmt.contents_subset h) (List.subset_append_right _ _)

theorem Stmt.supported_of_mem : ∀ {program : List Stmt} {stmt : Stmt}, Stmt.AllSupported program →
    stmt ∈ program → stmt.Supported
  | _ :: _, _, hs, h => by
    rcases List.mem_cons.1 h with rfl | h
    · exact hs.1
    · exact Stmt.supported_of_mem hs.2 h

namespace Scan

variable {source : String}

theorem legible_of_mem_ahead (h : ∀ t ∈ (ofSource source).stream.ahead, t.literal.Bounded) :
    ∀ c ∈ (ofSource source).stream.ahead.map Token.content, c.Legible := by
  intro c hc
  obtain ⟨t, ht, rfl⟩ := List.mem_map.1 hc
  exact Token.legible_content (spelled_of_mem_ahead ht) (h t ht)

/-- A statement that is read from a source can be read back from its form. -/
theorem shows_stmt (h : ∀ t ∈ (ofSource source).stream.ahead, t.literal.Bounded) {stmt : Stmt}
    (hstmt : stmt ∈ (ofSource source).stream.program.value) :
    stmt.form.IsPlain ∧ stmt.form.toStmt = stmt.reline fun _ => 1 := by
  have hkept := Stmt.kept_parseAll (ofSource source).stream.ahead
  have hsub := ((List.sublist_append_left _ _).trans hkept).subset
  refine Stmt.shows_form ?_ fun c hc =>
    legible_of_mem_ahead h c (hsub (Stmt.contents_subset hstmt hc))
  exact Stmt.supported_of_mem (Stmt.supported_parseAll _ fun _ => isName_of_mem_ahead) hstmt

/-- An expression that is read from a source can be read back from its form. -/
theorem shows_expr (h : ∀ t ∈ (ofSource source).stream.ahead, t.literal.Bounded) {e : Expr}
    (he : (ofSource source).stream.expression.value = some e) : e.form.Shows e := by
  have hparse : (Expr.parse (ofSource source).stream.ahead).value = .ok e := by
    rw [TokenStream.expression] at he
    split at he
    · cases he
    · rename_i e' hok
      split at he
      all_goals cases he
      exact hok
  have hkept := Expr.kept_parse (ofSource source).stream.ahead e hparse
  have hsub := ((List.sublist_append_left _ _).trans hkept).subset
  refine Expr.shows_form ?_ fun c hc => legible_of_mem_ahead h c (hsub hc)
  exact Expr.supported_parse _ (fun _ => isName_of_mem_ahead) e hparse

/-- The prefix form of what is read from a source that has no quoted text and no infinite number
tells the tree but for the lines of its tokens: no other tree of such a source is written so. -/
theorem reline_eq_of_prefixForm_eq {a b : String}
    (ha : ∀ t ∈ (ofSource a).stream.ahead, t.literal.Bounded)
    (hb : ∀ t ∈ (ofSource b).stream.ahead, t.literal.Bounded) :
    (∀ s ∈ (ofSource a).stream.program.value, ∀ t ∈ (ofSource b).stream.program.value,
        s.prefixForm = t.prefixForm → s.reline (fun _ => 1) = t.reline fun _ => 1)
      ∧ ∀ e ∈ (ofSource a).stream.expression.value, ∀ f ∈ (ofSource b).stream.expression.value,
        e.prefixForm = f.prefixForm → e.reline (fun _ => 1) = f.reline fun _ => 1 := by
  constructor
  · intro s hs t ht heq
    obtain ⟨hplain, hreads⟩ := shows_stmt ha hs
    obtain ⟨hplain', hreads'⟩ := shows_stmt hb ht
    have hchars : s.form.chars = t.form.chars := by
      rw [← s.toList_prefixForm, ← t.toList_prefixForm, heq]
    rw [← hreads, ← hreads', Form.chars_injective hplain hplain' hchars]
  · intro e he f hf heq
    obtain ⟨hplain, hreads⟩ := shows_expr ha he
    obtain ⟨hplain', hreads'⟩ := shows_expr hb hf
    have hchars : e.form.chars = f.form.chars := by
      rw [← e.toList_prefixForm, ← f.toList_prefixForm, heq]
    rw [← hreads, ← hreads', Form.chars_injective hplain hplain' hchars]

/-- The numbers are written with different digits, and the operators stand on different lines. -/
theorem reline_eq_of_prefixForm_eq_difference :
    let a := "print -x\n- 2.50;"
    let b := "print - x - 2.5;"
    let difference (line : Nat) (x : Float) : Stmt :=
      .print (.binary (.unary ⟨.minus, "-", .nil, 1⟩ (.name (.ident "x" 1)))
        ⟨.minus, "-", .nil, line⟩ (.literal (.number x)))
    (∀ t ∈ (ofSource a).stream.ahead, t.literal.Bounded)
      ∧ (∀ t ∈ (ofSource b).stream.ahead, t.literal.Bounded)
      ∧ difference 2 2.5 ∈ (ofSource a).stream.program.value
      ∧ difference 1 2.5 ∈ (ofSource b).stream.program.value
      ∧ (difference 2 2.5).prefixForm = (difference 1 2.5).prefixForm
      ∧ (difference 2 2.5).reline (fun _ => 1) = (difference 1 2.5).reline fun _ => 1 := by
  intro a b difference
  let tokens (line : Nat) (lexeme : String) (x : Float) : List Token :=
    [⟨.kwPrint, "print", .nil, 1⟩, ⟨.minus, "-", .nil, 1⟩, .ident "x" 1, ⟨.minus, "-", .nil, line⟩,
      ⟨.number, lexeme, .number x, line⟩, ⟨.semicolon, ";", .nil, line⟩]
  have hreads : ∀ line lexeme x,
      (Stmt.parseAll (tokens line lexeme x)).value = [difference line x] := by
    intro line lexeme x
    unfold tokens difference
    cbv
  have hbounded : ∀ line lexeme, ∀ t ∈ tokens line lexeme 2.5, t.literal.Bounded := by
    simp only [tokens, List.forall_mem_cons]
    exact fun _ _ => ⟨trivial, trivial, trivial, trivial, by decide +kernel, trivial, by simp⟩
  have ha : (ofSource a).stream.ahead = tokens 2 "2.50" 2.5 := by decide +kernel
  have hb : (ofSource b).stream.ahead = tokens 1 "2.5" 2.5 := by decide +kernel
  have hba : ∀ t ∈ (ofSource a).stream.ahead, t.literal.Bounded := ha ▸ hbounded 2 "2.50"
  have hbb : ∀ t ∈ (ofSource b).stream.ahead, t.literal.Bounded := hb ▸ hbounded 1 "2.5"
  have hsa : difference 2 2.5 ∈ (ofSource a).stream.program.value := by
    rw [TokenStream.program, ha, hreads]
    exact List.mem_singleton_self _
  have hsb : difference 1 2.5 ∈ (ofSource b).stream.program.value := by
    rw [TokenStream.program, hb, hreads]
    exact List.mem_singleton_self _
  have hprinted : (difference 2 2.5).prefixForm = (difference 1 2.5).prefixForm := by
    simp only [difference, Stmt.prefixForm, Expr.prefixForm]
  exact ⟨hba, hbb, hsa, hsb, hprinted, (reline_eq_of_prefixForm_eq hba hbb).1 _ hsa _ hsb hprinted⟩

end Scan

end Scriptlet
