import Scriptlet.Proofs.Draft
import Scriptlet.Proofs.Infix

/-!
# What is kept of the tokens

Whatever errors are reported, the trees that are read are made of tokens in their order, each of
them used once. If the trees are written as tokens again, then what is written is among the tokens
that were read, in the same order (`TokenStream.exists_kept`). Each reading keeps some of the tokens
that it is past and drops the others (`Kept`).
-/

namespace Scriptlet

/-! ### What a token says -/

namespace Kind

/-- The kinds of tokens that a tree does not hold. -/
def structural : List Kind :=
  [leftParen, rightParen, leftBrace, rightBrace, semicolon, equal, kwPrint, kwVar]

/-- The kinds of names and operators. -/
def words : List Kind :=
  [identifier, bang, minus, plus, slash, star, bangEqual, equalEqual, greater, greaterEqual, less,
   lessEqual]

end Kind

namespace Token

/-- What a token says beside its place. -/
inductive Content where
  | structural (kind : Kind)
  | constant (value : Value)
  | word (t : Token)

/-- A structural token says its kind, a constant its value, a name or an operator itself. -/
def content (t : Token) : Content :=
  if t.kind ∈ Kind.structural then .structural t.kind
  else
    match Expr.constant? t with
    | some value => .constant value
    | none => .word t

variable {t : Token}

theorem content_of_structural {kind : Kind} (h : t.kind = kind) (hk : kind ∈ Kind.structural) :
    t.content = .structural kind := by
  subst h
  rw [content, if_pos hk]

theorem content_of_constant {value : Value} (h : Expr.constant? t = some value) :
    t.content = .constant value := by
  have hk : t.kind ∉ Kind.structural := by
    intro hk
    simp only [Kind.structural, List.mem_cons, List.not_mem_nil, or_false] at hk
    rcases hk with hk | hk | hk | hk | hk | hk | hk | hk <;> simp [Expr.constant?, hk] at h
  rw [content, if_neg hk, h]

theorem content_of_word (h : t.kind ∈ Kind.words) : t.content = .word t := by
  have hk : t.kind ∉ Kind.structural :=
    (by decide : ∀ k ∈ Kind.words, k ∉ Kind.structural) t.kind h
  have hc : Expr.constant? t = none := by
    simp only [Kind.words, List.mem_cons, List.not_mem_nil, or_false] at h
    rcases h with h | h | h | h | h | h | h | h | h | h | h | h <;> simp [Expr.constant?, h]
  rw [content, if_neg hk, hc]

/-- Only a name or an operator says itself. -/
theorem eq_of_content_eq_word {u : Token} (h : u.content = .word t) : u = t := by
  rw [content] at h
  split at h
  · cases h
  · split at h <;> cases h
    rfl

end Token

/-! ### What a tree says -/

open Token (Content)

/-- What the tokens of an expression say. -/
def Expr.contents : Expr → List Content
  | literal value => [.constant value]
  | group inner => .structural .leftParen :: (inner.contents ++ [.structural .rightParen])
  | unary operator right => .word operator :: right.contents
  | binary left operator right => left.contents ++ .word operator :: right.contents
  | name token => [.word token]
  | assign target value => .word target :: .structural .equal :: value.contents

/-- What the tokens of the initial value of a declaration say. -/
def Expr.initialContents : Option Expr → List Content
  | none => []
  | some e => .structural .equal :: e.contents

mutual

/-- What the tokens of a statement say. -/
def Stmt.contents : Stmt → List Content
  | expression e => e.contents ++ [.structural .semicolon]
  | print e => .structural .kwPrint :: (e.contents ++ [.structural .semicolon])
  | block body =>
    .structural .leftBrace :: (Stmt.contentsAll body ++ [.structural .rightBrace])
  | declare name initial =>
    .structural .kwVar :: .word name
      :: (Expr.initialContents initial ++ [.structural .semicolon])

def Stmt.contentsAll : List Stmt → List Content
  | [] => []
  | stmt :: rest => stmt.contents ++ Stmt.contentsAll rest

end

theorem Stmt.contentsAll_append (program program' : List Stmt) :
    contentsAll (program ++ program') = contentsAll program ++ contentsAll program' := by
  induction program with
  | nil => rfl
  | cons stmt rest ih => rw [List.cons_append, contentsAll, ih, contentsAll, List.append_assoc]

/-! A tree that is written as tokens says the same, if its names and operators say themselves. -/

theorem Value.content_token (v : Value) : v.token.content = .constant v :=
  Token.content_of_constant (by rcases v with _ | (_ | _) | _ | _ <;> rfl)

/-- All words that are said are names or operators, which say themselves. -/
def Worded (contents : List Content) : Prop :=
  ∀ t, .word t ∈ contents → t.content = .word t

/-- What tokens say is so. -/
theorem worded_map_content (tokens : List Token) : Worded (tokens.map Token.content) := by
  intro t ht
  obtain ⟨u, -, hu⟩ := List.mem_map.1 ht
  obtain rfl := Token.eq_of_content_eq_word hu
  exact hu

theorem worded_append {said said' : List Content} :
    Worded (said ++ said') ↔ Worded said ∧ Worded said' := by
  simp only [Worded, List.mem_append, or_imp, forall_and]

theorem Worded.cons {c : Content} {said : List Content} (h : Worded (c :: said)) : Worded said :=
  fun t ht => h t (List.mem_cons_of_mem c ht)

theorem Worded.head {t : Token} {said : List Content} (h : Worded (.word t :: said)) :
    t.content = .word t :=
  h t List.mem_cons_self

theorem Expr.map_content_tokens (e : Expr) (h : Worded e.contents) :
    e.tokens.map Token.content = e.contents := by
  induction e with
  | literal value => exact congrArg (· :: []) value.content_token
  | group inner ih =>
    rw [tokens, contents, List.map_cons, List.map_append, ih (worded_append.1 h.cons).1]
    rfl
  | unary operator right ih => rw [tokens, contents, List.map_cons, h.head, ih h.cons]
  | binary left operator right ihl ihr =>
    obtain ⟨hl, hr⟩ := worded_append.1 h
    rw [tokens, contents, List.map_append, List.map_cons, ihl hl, hr.head, ihr hr.cons]
  | name token => exact congrArg (· :: []) h.head
  | assign target value ih =>
    rw [tokens, contents, List.map_cons, List.map_cons, h.head, ih h.cons.cons]
    rfl

mutual

theorem Stmt.map_content_tokens : ∀ (stmt : Stmt), Worded stmt.contents →
    stmt.tokens.map Token.content = stmt.contents
  | .expression e, h => by
    rw [tokens, contents, List.map_append, e.map_content_tokens (worded_append.1 h).1]
    rfl
  | .print e, h => by
    rw [tokens, contents, List.map_cons, List.map_append,
      e.map_content_tokens (worded_append.1 h.cons).1]
    rfl
  | .block body, h => by
    rw [tokens, contents, List.map_cons, List.map_append,
      map_content_tokensAll body (worded_append.1 h.cons).1]
    rfl
  | .declare name none, h => by
    rw [tokens, contents, List.map_cons, List.map_cons, h.cons.head]
    rfl
  | .declare name (some e), h => by
    rw [tokens, contents, List.map_cons, List.map_cons, h.cons.head, List.map_cons,
      List.map_append, e.map_content_tokens (worded_append.1 h.cons.cons).1.cons]
    rfl

theorem Stmt.map_content_tokensAll : ∀ (program : List Stmt), Worded (Stmt.contentsAll program) →
    (Stmt.tokensAll program).map Token.content = Stmt.contentsAll program
  | [], _ => rfl
  | stmt :: rest, h => by
    obtain ⟨hs, hrest⟩ := worded_append.1 h
    rw [tokensAll, contentsAll, List.map_append, map_content_tokens stmt hs,
      map_content_tokensAll rest hrest]

end

/-! ### Kept tokens -/

/-- What is `said` is what some of the tokens before `rest` say, in their order. -/
def Kept (said : List Content) (tokens rest : List Token) : Prop :=
  (said ++ rest.map Token.content).Sublist (tokens.map Token.content)

namespace Kept

variable {said said' : List Content} {tokens mid rest after : List Token} {t : Token}

theorem nil (h : rest <:+ tokens) : Kept [] tokens rest :=
  h.sublist.map _

theorem append (h : Kept said tokens mid) (h' : Kept said' mid rest) :
    Kept (said ++ said') tokens rest := by
  rw [Kept, List.append_assoc]
  exact (List.Sublist.append_left h' said).trans h

/-- More tokens are dropped. -/
theorem skip (h : Kept said tokens mid) (hs : rest <:+ mid) : Kept said tokens rest := by
  have h' := h.append (nil hs)
  rwa [List.append_nil] at h'

theorem self (t : Token) (after : List Token) : Kept [t.content] (t :: after) after :=
  List.Sublist.refl _

theorem word (h : t.kind ∈ Kind.words) (after : List Token) :
    Kept [.word t] (t :: after) after := by
  rw [← Token.content_of_word h]
  exact self t after

theorem structural {kind : Kind} (h : t.kind = kind) (hk : kind ∈ Kind.structural) :
    Kept [.structural kind] (t :: after) after := by
  rw [← Token.content_of_structural h hk]
  exact self t after

theorem constant {value : Value} (h : Expr.constant? t = some value) :
    Kept [.constant value] (t :: after) after := by
  rw [← Token.content_of_constant h]
  exact self t after

end Kept

namespace Reading

variable {α β : Type} {tokens : List Token} {p : α → List Token → Prop} {q : β → List Token → Prop}

/-- What the reading gives, if it does not fail, has the property together with what it leaves. -/
def Leaves (p : α → List Token → Prop) (r : Attempt tokens α) : Prop :=
  ∀ a, r.value = .ok a → p a r.rest

theorem leaves_done {a : α} (h : p a tokens) : (done a : Attempt tokens α).Leaves p := by
  intro b hb
  cases hb
  exact h

theorem leaves_fail (cause : SyntaxError.Cause) : (fail cause : Attempt tokens α).Leaves p := by
  intro b hb
  cases hb

theorem Leaves.past {t : Token} {r : Attempt tokens α} (h : r.Leaves p) :
    (r.past : Attempt (t :: tokens) α).Leaves p :=
  h

theorem Leaves.andThen {r : Attempt tokens α}
    {f : α → (rest : List Token) → rest <:+ tokens → Attempt rest β} (h : r.Leaves p)
    (hf : ∀ a rest (hs : rest <:+ tokens), p a rest → (f a rest hs).Leaves q) :
    (r.andThen f).Leaves q := by
  intro b hb
  obtain ⟨a, ha, hb⟩ := ok_of_andThen hb
  rw [andThen_of_ok ha]
  exact hf a _ _ (h a ha) b hb

theorem leaves_expect (kind : Kind) (cause : SyntaxError.Cause) (tokens : List Token) :
    (expect kind cause tokens).Leaves fun t rest => tokens = t :: rest ∧ t.kind = kind := by
  cases tokens with
  | nil => exact leaves_fail cause
  | cons t after =>
    rw [expect]
    split
    · exact Leaves.past (leaves_done ⟨rfl, ‹_›⟩)
    · exact leaves_fail cause

/-- A part and one token more. -/
theorem Leaves.andThen_expect {r : Attempt tokens α} {kind : Kind} {cause : SyntaxError.Cause}
    {f : α → β} (h : r.Leaves p)
    (hf : ∀ a t rest, p a (t :: rest) → t.kind = kind → q (f a) rest) :
    (r.andThen fun a rest _ =>
      (expect kind cause rest).andThen fun _ _ _ => done (f a)).Leaves q := by
  refine h.andThen fun a mid _ ha => (leaves_expect kind cause mid).andThen ?_
  rintro t rest - ⟨rfl, hk⟩
  exact leaves_done (hf a t rest ha hk)

end Reading

namespace Expr

open Reading

variable {start : List Token}

/-- A target that is no name is kept, and its value is dropped. -/
theorem kept_assignTo {target value : Expr} {equals : Token} {after rest : List Token}
    (ht : Kept target.contents start (equals :: after)) (hk : equals.kind = .equal)
    (hv : Kept value.contents after rest) (hs : rest <:+ after) :
    (assignTo target equals after value : Attempt rest Expr).Leaves fun e rest =>
      Kept e.contents start rest := by
  cases target with
  | name t => exact leaves_done ((ht.append (.structural hk (by decide))).append hv)
  | _ =>
    intro e he
    cases he
    exact ht.skip (hs.trans (List.suffix_cons equals after))

theorem mem_words : ∀ level ∈ levels, ∀ k ∈ level, k ∈ Kind.words := by
  decide

mutual

theorem kept_parse (tokens : List Token) :
    (parse tokens).Leaves fun e rest => Kept e.contents tokens rest := by
  rw [parse]
  refine (kept_parseLevels levels tokens (List.Subset.refl _)).andThen fun target rest hs ht => ?_
  have hle := hs.length_le
  match rest, hs, ht, hle with
  | [], _, ht, _ => exact leaves_done ht
  | equals :: after, _, ht, hle =>
    simp only
    split
    · have hlt : after.length < tokens.length := hle
      exact Leaves.past ((kept_parse after).andThen fun value rest hs hv =>
        kept_assignTo ht ‹_› hv hs)
    · exact leaves_done ht
termination_by (tokens.length, 2 * levels.length + 4)

theorem kept_parseLevels : ∀ (ops : List (List Kind)) (tokens : List Token), ops ⊆ levels →
    (parseLevels ops tokens).Leaves fun e rest => Kept e.contents tokens rest
  | [], tokens, _ => by
    rw [parseLevels]
    exact kept_parseOperand tokens
  | level :: tighter, tokens, hops => by
    obtain ⟨hlevel, htighter⟩ := List.cons_subset.1 hops
    rw [parseLevels]
    refine (kept_parseLevels tighter tokens htighter).andThen fun left rest hs hl => ?_
    have hle := hs.length_le
    exact kept_parseMore level tighter hlevel htighter left rest hl
termination_by ops tokens => (tokens.length, 2 * ops.length + 1)
decreasing_by
  all_goals simp_wf
  all_goals simp [Prod.lex_def]
  all_goals omega

theorem kept_parseMore (level : List Kind) (tighter : List (List Kind)) (hlevel : level ∈ levels)
    (htighter : tighter ⊆ levels) {start : List Token} :
    ∀ (left : Expr) (tokens : List Token), Kept left.contents start tokens →
    (parseMore level tighter left tokens).Leaves fun e rest => Kept e.contents start rest
  | left, [], hl => by
    rw [parseMore]
    exact leaves_done hl
  | left, operator :: after, hl => by
    rw [parseMore]
    split
    · rename_i hk
      refine Leaves.past ((kept_parseLevels tighter after htighter).andThen
        fun right rest hs hr => ?_)
      have hlt : rest.length < (operator :: after).length := Nat.lt_succ_of_le hs.length_le
      have hoperator := Kept.word (mem_words level hlevel _ hk) after
      exact kept_parseMore level tighter hlevel htighter (.binary left operator right) rest
        (hl.append (hoperator.append hr))
    · exact leaves_done hl
termination_by _ tokens => (tokens.length, 2 * tighter.length + 2)

theorem kept_parseOperand : ∀ tokens : List Token,
    (parseOperand tokens).Leaves fun e rest => Kept e.contents tokens rest
  | [] => by
    rw [parseOperand]
    exact leaves_fail _
  | t :: after => by
    rw [parseOperand]
    split
    case h_1 hk | h_2 hk =>
      have hoperator := Kept.word (t := t) (by rw [hk]; decide) after
      exact Leaves.past ((kept_parseOperand after).andThen fun _ _ _ hr =>
        leaves_done (hoperator.append hr))
    case h_8 hk => exact Leaves.past (leaves_done (.word (by rw [hk]; decide) after))
    case h_9 hk =>
      exact Leaves.past (Leaves.andThen_expect (kept_parse after) fun e closing rest he hclosing =>
        (Kept.structural hk (by decide)).append
          (he.append (.structural hclosing (by decide))))
    case h_10 => exact leaves_fail _
    all_goals
      rename_i hk
      exact Leaves.past (leaves_done (.constant (by rw [constant?, hk])))
termination_by tokens => (tokens.length, 0)

end

end Expr

namespace Stmt

open Reading

section

variable {t : Token} {after tokens start : List Token}

theorem kept_parseInitial (tokens : List Token) :
    (parseInitial tokens).Leaves fun initial rest =>
      Kept (Expr.initialContents initial) tokens rest := by
  cases tokens with
  | nil => exact leaves_done (.nil List.suffix_rfl)
  | cons equals after =>
    rw [parseInitial]
    split
    · have hequals : Kept [.structural .equal] (equals :: after) after :=
        .structural ‹_› (by decide)
      exact Leaves.past ((Expr.kept_parse after).andThen fun _ _ _ he =>
        leaves_done (hequals.append he))
    · exact leaves_done (.nil List.suffix_rfl)

theorem kept_parseDeclaration (ht : t.kind = .kwVar) (after : List Token) :
    (parseDeclaration after).Leaves fun s rest => Kept s.contents (t :: after) rest := by
  have hkeyword : Kept [.structural .kwVar] (t :: after) after := .structural ht (by decide)
  rw [parseDeclaration]
  refine (leaves_expect _ _ after).andThen ?_
  rintro name rest - ⟨rfl, hname⟩
  have hword := Kept.word (t := name) (by rw [hname]; decide) rest
  exact (kept_parseInitial rest).andThen_expect fun initial semicolon rest' hi hs =>
    (hkeyword.append hword).append (hi.append (.structural hs (by decide)))

theorem kept_parsePrint (ht : t.kind = .kwPrint) (after : List Token) :
    (parsePrint after).Leaves fun s rest => Kept s.contents (t :: after) rest := by
  have hkeyword : Kept [.structural .kwPrint] (t :: after) after := .structural ht (by decide)
  exact (Expr.kept_parse after).andThen_expect fun e semicolon rest he hs =>
    hkeyword.append (he.append (.structural hs (by decide)))

theorem kept_parseExpression (tokens : List Token) :
    (parseExpression tokens).Leaves fun s rest => Kept s.contents tokens rest :=
  (Expr.kept_parse tokens).andThen_expect fun _ _ _ he hs =>
    he.append (.structural hs (by decide))

theorem kept_block (ht : t.kind = .leftBrace)
    (h : (parseBlock after).Leaves fun body rest =>
      Kept (contentsAll body ++ [.structural .rightBrace]) after rest) :
    ((parseBlock after).andThen fun body _ _ => done (block body)).Leaves fun s rest =>
      Kept s.contents (t :: after) rest := by
  have hopening : Kept [.structural .leftBrace] (t :: after) after := .structural ht (by decide)
  exact h.andThen fun _ _ _ hbody => leaves_done (hopening.append hbody)

/-- What cannot be read is dropped, with all that is skipped. -/
theorem kept_recover {r : Attempt tokens Stmt} (hs : tokens <:+ start)
    (h : r.Leaves fun s rest => Kept s.contents start rest) :
    Kept (contentsAll r.recover.value.toList) start r.recover.rest := by
  rcases hr : r.value with cause | s
  · rw [recover_of_error hr]
    exact .nil ((resume_suffix _).trans (r.suffix.trans hs))
  · rw [recover_of_ok hr]
    exact (h s hr).append (.nil List.suffix_rfl)

end

mutual

theorem kept_parse (t : Token) (after : List Token) :
    Kept (contentsAll (parse t after).value.toList) (t :: after) (parse t after).rest := by
  have hafter := List.suffix_cons t after
  rw [parse]
  split
  · exact kept_recover hafter (kept_parseDeclaration ‹_› after)
  split
  · exact kept_recover hafter (kept_parsePrint ‹_› after)
  split
  · exact kept_recover hafter (kept_block ‹_› (kept_parseBlock after))
  · exact kept_recover List.suffix_rfl (kept_parseExpression (t :: after))
termination_by (after.length, 1)

theorem kept_parseBlock : ∀ tokens : List Token,
    (parseBlock tokens).Leaves fun body rest =>
      Kept (contentsAll body ++ [.structural .rightBrace]) tokens rest
  | [] => by
    rw [parseBlock]
    exact leaves_fail _
  | t :: after => by
    by_cases ht : t.kind = .rightBrace
    · rw [parseBlock, if_pos ht]
      exact Leaves.past (leaves_done (.structural ht (by decide)))
    · have hlen := (parse t after).suffix.length_le
      obtain ⟨hv, -, hr⟩ := yields_parseBlock ht (yields_self (parse t after))
        (yields_self (parseBlock (parse t after).rest))
      have hbody := kept_parseBlock (parse t after).rest
      intro program hprogram
      rw [hv] at hprogram
      rw [hr]
      cases hb : (parseBlock (parse t after).rest).value with
      | error cause =>
        rw [hb] at hprogram
        cases hprogram
      | ok body =>
        rw [hb] at hprogram
        obtain rfl := Except.ok.inj hprogram
        rw [contentsAll_append, List.append_assoc]
        exact (kept_parse t after).append (hbody body hb)
termination_by tokens => (tokens.length, 0)

end

theorem kept_parseAll : ∀ tokens : List Token,
    Kept (contentsAll (parseAll tokens).value) tokens (parseAll tokens).rest
  | [] => by
    rw [parseAll]
    exact .nil List.suffix_rfl
  | t :: after => by
    have hlen := (parse t after).suffix.length_le
    obtain ⟨hv, -, hr⟩ := yields_parseAll (yields_self (parse t after))
      (yields_self (parseAll (parse t after).rest))
    rw [hv, hr, contentsAll_append]
    exact (kept_parse t after).append (kept_parseAll _)
termination_by tokens => tokens.length

end Stmt

namespace TokenStream

/-- Whatever errors are reported, the program read from tokens with an end at their end says what
some of the tokens before the first end say, in their order and each of them once: it has their
names and operators, the values of their constants, and the kinds of all others. If it is written as
tokens again, then these say the same. -/
theorem exists_kept (front : List Token) {final : Token} (hfinal : final.kind = .eof) :
    let tokens := front ++ [final]
    ∃ s, ofList? tokens = some s ∧ ∃ kept : List Token,
      kept.Sublist (tokens.takeWhile fun t => t.kind ≠ .eof)
      ∧ kept.map Token.content = Stmt.contentsAll s.program.value
      ∧ kept.map Token.content = (Stmt.tokensAll s.program.value).map Token.content := by
  intro tokens
  obtain ⟨stop, hs⟩ := exists_ofList? front hfinal
  refine ⟨_, hs, ?_⟩
  have hall := Stmt.kept_parseAll (tokens.takeWhile fun t => t.kind ≠ .eof)
  obtain ⟨kept, hsub, hkept⟩ :=
    List.sublist_map_iff.1 ((List.sublist_append_left _ _).trans hall)
  have hworded := worded_map_content kept
  rw [← hkept] at hworded
  exact ⟨kept, hsub, hkept.symm,
    hkept.symm.trans (Stmt.map_content_tokensAll _ hworded).symm⟩

/-- The value of the first assignment is left out, as its target is no name. In the first block a
statement without its semicolon is left out, and the second block is not closed. -/
theorem exists_kept_unclosed :
    let word (kind : Kind) (lexeme : String) : Token := ⟨kind, lexeme, .nil, 1⟩
    let opening := word .leftBrace "\x7b"
    let nothing := word .kwNil "nil"
    let semicolon := word .semicolon ";"
    let front := [nothing, word .equal "=", .ident "a" 1, semicolon, opening, .ident "a" 1,
      word .kwPrint "print", nothing, semicolon, word .rightBrace "\x7d", opening, nothing]
    let program := [Stmt.expression (.literal .nil), .block [.print (.literal .nil)]]
    (Token.atEnd 1).kind = .eof ∧ ∃ s, ofList? (front ++ [.atEnd 1]) = some s
      ∧ s.program.value = program
      ∧ s.program.errors.map (·.cause)
        = [.assignmentTarget, .semicolonAfterExpression, .semicolonAfterExpression, .closingBrace]
      ∧ ∃ kept : List Token, kept.Sublist front
        ∧ kept.map Token.content = (Stmt.tokensAll program).map Token.content := by
  intro word opening nothing semicolon front program
  have hfinal : (Token.atEnd 1).kind = .eof := rfl
  obtain ⟨s, hs, kept, hsub, -, hcontent⟩ := exists_kept front hfinal
  obtain rfl : (⟨front, .atEnd 1⟩ : TokenStream) = s := Option.some.inj hs
  have hvalue : (⟨front, .atEnd 1⟩ : TokenStream).program.value = program := by cbv
  rw [hvalue] at hcontent
  exact ⟨hfinal, _, hs, hvalue, by cbv, kept, hsub, hcontent⟩

end TokenStream

end Scriptlet
