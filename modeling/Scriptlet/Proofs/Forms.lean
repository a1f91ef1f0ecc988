import Scriptlet.Syntax.PrefixForm

/-!
# Forms are read in one way

The prefix form of a tree is a form (`Expr.form`, `Stmt.form`): a word, or a head with any number of
parts in parentheses. If no word and no head has a space or a parenthesis in it, then no two forms
have the same characters (`Form.chars_injective`). What carries the induction is that each form ends
where something follows that can follow a form, so that the same characters remain on both sides.
-/

namespace Scriptlet

/-- A prefix form: a word, or a head with parts in parentheses. -/
inductive Form where
  | word (text : List Char)
  | node (head : List Char) (parts : List Form)

namespace Form

mutual

def chars : Form → List Char
  | word text => text
  | node head parts => '(' :: (head ++ (charsAll parts ++ [')']))

/-- The characters of forms, a space before each. -/
def charsAll : List Form → List Char
  | [] => []
  | f :: rest => ' ' :: (f.chars ++ charsAll rest)

end

/-- The text has none of the characters that part one form from the next. -/
def Plain (text : List Char) : Prop :=
  ∀ c ∈ text, c ∉ [' ', '(', ')']

instance : DecidablePred Plain :=
  fun text => List.decidableBAll (fun c => c ∉ [' ', '(', ')']) text

mutual

/-- All words and heads are plain. -/
def IsPlain : Form → Prop
  | word text => Plain text
  | node head parts => Plain head ∧ AllPlain parts

def AllPlain : List Form → Prop
  | [] => True
  | f :: rest => f.IsPlain ∧ AllPlain rest

end

/-- What can follow a form. -/
def Follows (rest : List Char) : Prop :=
  ∀ c ∈ rest.head?, c = ' ' ∨ c = ')'

theorem follows_cons {c : Char} {rest : List Char} (h : c = ' ' ∨ c = ')') :
    Follows (c :: rest) := by
  rintro d ⟨⟩
  exact h

theorem follows_charsAll_append (parts : List Form) (rest : List Char) :
    Follows (charsAll parts ++ ')' :: rest) := by
  cases parts with
  | nil => exact follows_cons (.inr rfl)
  | cons f parts => exact follows_cons (.inl rfl)

/-- A plain text ends where what can follow it starts. -/
theorem takeWhile_plain {text rest : List Char} (h : Plain text) (hr : Follows rest) :
    (text ++ rest).takeWhile (fun c => c ∉ [' ', '(', ')']) = text := by
  have htake : rest.takeWhile (fun c => c ∉ [' ', '(', ')']) = [] := by
    cases rest with
    | nil => rfl
    | cons c rest =>
      refine List.takeWhile_cons_of_neg ?_
      rcases hr c rfl with rfl | rfl
      all_goals decide
  rw [List.takeWhile_append_of_pos fun c hc => decide_eq_true (h c hc), htake, List.append_nil]

theorem plain_append_inj {text text' rest rest' : List Char} (h : Plain text) (h' : Plain text')
    (hr : Follows rest) (hr' : Follows rest') (heq : text ++ rest = text' ++ rest') :
    text = text' ∧ rest = rest' := by
  have htext : text = text' := by
    rw [← takeWhile_plain h hr, heq, takeWhile_plain h' hr']
  subst htext
  exact ⟨rfl, List.append_cancel_left heq⟩

/-- A plain text is not read where a parenthesis opens. -/
theorem plain_append_ne {text rest more : List Char} (h : Plain text) (hr : Follows rest) :
    text ++ rest ≠ '(' :: more := by
  intro heq
  have htext := takeWhile_plain h hr
  rw [heq, List.takeWhile_cons_of_neg (by decide)] at htext
  subst htext
  rw [List.nil_append] at heq
  subst heq
  exact absurd (hr '(' rfl) (by decide)

mutual

/-- Where two forms are read from the same characters they are one form, and the same follows. -/
theorem chars_append_inj : ∀ {f g : Form} {rest rest' : List Char}, f.IsPlain → g.IsPlain →
    Follows rest → Follows rest' → f.chars ++ rest = g.chars ++ rest' → f = g ∧ rest = rest'
  | word _, word _, _, _, hf, hg, hr, hr', heq => by
    obtain ⟨rfl, hrest⟩ := plain_append_inj hf hg hr hr' heq
    exact ⟨rfl, hrest⟩
  | word _, node _ _, _, _, hf, _, hr, _, heq => absurd heq (plain_append_ne hf hr)
  | node _ _, word _, _, _, _, hg, _, hr', heq => absurd heq.symm (plain_append_ne hg hr')
  | node head parts, node head' parts', rest, rest', hf, hg, hr, hr', heq => by
    simp only [chars, List.cons_append, List.append_assoc, List.nil_append, List.cons.injEq,
      true_and] at heq
    -- The head ends before the first part, or where the parenthesis closes.
    obtain ⟨rfl, hparts⟩ := plain_append_inj hf.1 hg.1 (follows_charsAll_append parts rest)
      (follows_charsAll_append parts' rest') heq
    obtain ⟨rfl, hrest⟩ := charsAll_append_inj hf.2 hg.2 hparts
    exact ⟨rfl, hrest⟩

theorem charsAll_append_inj : ∀ {parts parts' : List Form} {rest rest' : List Char},
    AllPlain parts → AllPlain parts' →
    charsAll parts ++ ')' :: rest = charsAll parts' ++ ')' :: rest' → parts = parts' ∧ rest = rest'
  | [], [], _, _, _, _, heq => ⟨rfl, (List.cons.inj heq).2⟩
  | [], _ :: _, _, _, _, _, heq => absurd (List.cons.inj heq).1 (by decide)
  | _ :: _, [], _, _, _, _, heq => absurd (List.cons.inj heq).1 (by decide)
  | f :: parts, f' :: parts', rest, rest', h, h', heq => by
    simp only [charsAll, List.cons_append, List.append_assoc, List.cons.injEq, true_and] at heq
    obtain ⟨rfl, hparts⟩ := chars_append_inj h.1 h'.1 (follows_charsAll_append parts rest)
      (follows_charsAll_append parts' rest') heq
    obtain ⟨rfl, hrest⟩ := charsAll_append_inj h.2 h'.2 hparts
    exact ⟨rfl, hrest⟩

end

theorem chars_injective {f g : Form} (hf : f.IsPlain) (hg : g.IsPlain) (h : f.chars = g.chars) :
    f = g :=
  (chars_append_inj hf hg (by rintro c ⟨⟩) (by rintro c ⟨⟩) (congrArg (· ++ []) h)).1

end Form

/-! ### Forms of trees -/

def Expr.form : Expr → Form
  | literal value => .word value.display.toList
  | group inner => .node "group".toList [inner.form]
  | unary operator right => .node operator.lexeme.toList [right.form]
  | binary left operator right => .node operator.lexeme.toList [left.form, right.form]
  | name token => .word token.lexeme.toList
  | assign target value => .node "=".toList [.word target.lexeme.toList, value.form]

mutual

def Stmt.form : Stmt → Form
  | .expression e => .node ";".toList [e.form]
  | .print e => .node "print".toList [e.form]
  | .block body => .node "block".toList (Stmt.forms body)
  | .declare name none => .node "var".toList [.word name.lexeme.toList]
  | .declare name (some e) => .node "var".toList [.word name.lexeme.toList, e.form]

def Stmt.forms : List Stmt → List Form
  | [] => []
  | stmt :: rest => stmt.form :: Stmt.forms rest

end

theorem Expr.toList_prefixForm (e : Expr) : e.prefixForm.toList = e.form.chars := by
  induction e with
  | literal value => rfl
  | group inner ih => simp [prefixForm, form, Form.chars, Form.charsAll, ih]
  | unary operator right ih => simp [prefixForm, form, Form.chars, Form.charsAll, ih]
  | binary left operator right ihl ihr =>
    simp [prefixForm, form, Form.chars, Form.charsAll, ihl, ihr]
  | name token => rfl
  | assign target value ih => simp [prefixForm, form, Form.chars, Form.charsAll, ih]

mutual

theorem Stmt.toList_prefixForm : ∀ stmt : Stmt, stmt.prefixForm.toList = stmt.form.chars
  | .expression e | .print e | .declare _ (some e) => by
    simp [prefixForm, form, Form.chars, Form.charsAll, e.toList_prefixForm]
  | .block body => by simp [prefixForm, form, Form.chars, Stmt.toList_prefixForms body]
  | .declare name none => by simp [prefixForm, form, Form.chars, Form.charsAll]

theorem Stmt.toList_prefixForms : ∀ program : List Stmt,
    (Stmt.prefixForms program).toList = Form.charsAll (Stmt.forms program)
  | [] => rfl
  | stmt :: rest => by
    simp [prefixForms, forms, Form.charsAll, stmt.toList_prefixForm, Stmt.toList_prefixForms rest]

end

end Scriptlet
