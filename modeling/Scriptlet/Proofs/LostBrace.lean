import Scriptlet.Proofs.MissingSemicolon

/-!
# Missing semicolons before a brace

A clause that no semicolon follows at the end of a block has its error at the brace that closes the
block, and recovery drops that brace. Every block that is read has a closing brace of its own
(`Stmt.pays_parseAll`), so with one brace dropped fewer blocks are read than were written
(`Grammar.program_of_gapBefore`), where before a keyword only the sentence itself would be missing.
-/

namespace Scriptlet

mutual

/-- The number of blocks in a statement. -/
def Stmt.blocks : Stmt → Nat
  | .block body => Stmt.blocksAll body + 1
  | .expression _ => 0
  | .print _ => 0
  | .declare _ _ => 0

def Stmt.blocksAll : List Stmt → Nat
  | [] => 0
  | s :: rest => s.blocks + Stmt.blocksAll rest

end

theorem Stmt.blocksAll_append : ∀ (program program' : List Stmt),
    blocksAll (program ++ program') = blocksAll program + blocksAll program'
  | [], program' => by rw [List.nil_append, blocksAll, Nat.zero_add]
  | s :: program, program' => by
    rw [List.cons_append, blocksAll, blocksAll, blocksAll_append program program', Nat.add_assoc]

/-- The number of braces that close blocks. -/
def closers (tokens : List Token) : Nat :=
  tokens.countP fun t => t.kind = .rightBrace

@[simp] theorem closers_nil : closers [] = 0 := rfl

@[simp] theorem closers_cons (t : Token) (rest : List Token) :
    closers (t :: rest) = closers rest + if t.kind = .rightBrace then 1 else 0 := by
  simp [closers, List.countP_cons]

@[simp] theorem closers_append (tokens rest : List Token) :
    closers (tokens ++ rest) = closers tokens + closers rest :=
  List.countP_append

theorem closers_le_of_suffix {tokens rest : List Token} (h : rest <:+ tokens) :
    closers rest ≤ closers tokens :=
  h.sublist.countP_le

namespace Reading

variable {α β : Type} {tokens : List Token}

/-- What a part and one token more give is made of what the part gives. -/
theorem ok_of_andThen_expect {r : Attempt tokens α} {kind : Kind} {cause : SyntaxError.Cause}
    {f : α → β} {b : β}
    (h : (r.andThen fun a rest _ =>
      (expect kind cause rest).andThen fun _ _ _ => done (f a)).value = .ok b) :
    ∃ a, f a = b := by
  obtain ⟨a, -, h⟩ := ok_of_andThen h
  obtain ⟨t, -, h⟩ := ok_of_andThen h
  exact ⟨a, Except.ok.inj h⟩

/-- The closing braces that were read pay for the weight of what the reading gives. -/
def Pays (weight : α → Nat) (r : Reading tokens α) : Prop :=
  weight r.value + closers r.rest ≤ closers tokens

/-- The first error is that of a clause, at a brace, and of the closing braces that were read not
all pay for something. -/
structure Loses (c : Grammar.Clause) (brace : Token) (weight : α → Nat) (r : Reading tokens α) :
    Prop where
  first : ∃ rest, r.errors.head? = some ⟨c.cause, brace :: rest⟩
  lt : weight r.value + closers r.rest < closers tokens

end Reading

namespace Stmt

open Reading

/-- The blocks of what is given for a statement. -/
def blocksGiven (s? : Option Stmt) : Nat :=
  blocksAll s?.toList

/-- The blocks of what is given for a block, itself among them. -/
def blocksClosed : Except SyntaxError.Cause (List Stmt) → Nat
  | .ok body => blocksAll body + 1
  | .error _ => 0

theorem blocksClosed_map_append (front : List Stmt)
    (value : Except SyntaxError.Cause (List Stmt)) :
    blocksClosed (value.map (front ++ ·)) ≤ blocksAll front + blocksClosed value := by
  cases value with
  | error cause => exact Nat.zero_le _
  | ok body =>
    simp only [Except.map, blocksClosed, blocksAll_append]
    omega

section

variable {t : Token} {after tokens : List Token}

theorem blocks_of_parseDeclaration {s : Stmt} (h : (parseDeclaration tokens).value = .ok s) :
    s.blocks = 0 := by
  obtain ⟨name, -, h⟩ := ok_of_andThen h
  obtain ⟨initial, rfl⟩ := ok_of_andThen_expect h
  rfl

theorem blocks_of_parsePrint {s : Stmt} (h : (parsePrint tokens).value = .ok s) :
    s.blocks = 0 := by
  obtain ⟨e, rfl⟩ := ok_of_andThen_expect h
  rfl

theorem blocks_of_parseExpression {s : Stmt} (h : (parseExpression tokens).value = .ok s) :
    s.blocks = 0 := by
  obtain ⟨e, rfl⟩ := ok_of_andThen_expect h
  rfl

theorem blocksGiven_recover {r : Attempt tokens Stmt} (h : ∀ s, r.value = .ok s → s.blocks = 0) :
    blocksGiven r.recover.value = 0 := by
  rcases hr : r.value with cause | s
  · rw [recover_of_error hr]
    rfl
  · rw [recover_of_ok hr, blocksGiven, Option.toList, blocksAll, blocksAll, h s hr]

/-- A statement without blocks needs no brace. -/
theorem pays_of_blocksGiven {r : Reading tokens (Option Stmt)} (h : blocksGiven r.value = 0) :
    r.Pays blocksGiven := by
  have := closers_le_of_suffix r.suffix
  rw [Pays]
  omega

/-- The statement that the reading of a block is recovered to has its blocks, or none. -/
theorem exists_recover_block (r : Attempt tokens (List Stmt)) :
    ∃ s? errors rest,
      (r.andThen fun body _ _ => done (block body)).recover.Yields s? (r.errors ++ errors) rest
        ∧ blocksGiven s? + closers rest ≤ blocksClosed r.value + closers r.rest := by
  have hy := (yields_self r).andThen_done (f := block)
  rcases hr : r.value with cause | body
  · rw [hr] at hy
    have := closers_le_of_suffix (resume_suffix r.rest)
    exact ⟨none, _, _, hy.recover, by simpa [blocksGiven, blocksClosed, blocksAll] using this⟩
  · rw [hr] at hy
    exact ⟨some (block body), [], _, by simpa using hy.recover_ok,
      by simp [blocksGiven, blocksClosed, blocksAll, blocks]⟩

/-- After one statement of a block, what is read has the blocks of the statement and those of what
follows it. -/
theorem blocks_parseBlock_cons (after : List Token) (ht : t.kind ≠ .rightBrace) :
    blocksClosed (parseBlock (t :: after)).value + closers (parseBlock (t :: after)).rest
      ≤ blocksGiven (parse t after).value + (blocksClosed (parseBlock (parse t after).rest).value
        + closers (parseBlock (parse t after).rest).rest) := by
  obtain ⟨hv, -, hr⟩ := yields_parseBlock ht (yields_self (parse t after))
    (yields_self (parseBlock (parse t after).rest))
  have := blocksClosed_map_append (parse t after).value.toList
    (parseBlock (parse t after).rest).value
  rw [hv, hr, blocksGiven]
  omega

theorem blocks_parseAll_cons (t : Token) (after : List Token) :
    blocksAll (parseAll (t :: after)).value + closers (parseAll (t :: after)).rest
      = blocksGiven (parse t after).value + (blocksAll (parseAll (parse t after).rest).value
        + closers (parseAll (parse t after).rest).rest) := by
  obtain ⟨hv, -, hr⟩ := yields_parseAll (yields_self (parse t after))
    (yields_self (parseAll (parse t after).rest))
  rw [hv, hr, blocksAll_append, blocksGiven, Nat.add_assoc]

mutual

theorem pays_parse : ∀ (t : Token) (after : List Token), (parse t after).Pays blocksGiven
  | t, after => by
    unfold parse
    split
    · exact pays_of_blocksGiven (blocksGiven_recover fun _ h => blocks_of_parseDeclaration h)
    split
    · exact pays_of_blocksGiven (blocksGiven_recover fun _ h => blocks_of_parsePrint h)
    split
    · obtain ⟨s?, errors, rest, ⟨hv, -, hr⟩, hle⟩ := exists_recover_block (parseBlock after)
      have := pays_parseBlock after
      rw [Pays] at this ⊢
      rw [hv, hr]
      omega
    · exact pays_of_blocksGiven (blocksGiven_recover fun _ h => blocks_of_parseExpression h)
termination_by _ after => (after.length, 1)

/-- A block is read up to a brace of its own. -/
theorem pays_parseBlock : ∀ (tokens : List Token), (parseBlock tokens).Pays blocksClosed
  | [] => by
    rw [parseBlock]
    exact Nat.le_refl _
  | t :: after => by
    by_cases ht : t.kind = .rightBrace
    · rw [parseBlock, if_pos ht, Pays, closers_cons, if_pos ht]
      exact Nat.le_of_eq (Nat.add_comm _ _)
    · have hs := pays_parse t after
      have hlen := (parse t after).suffix.length_le
      have hbody := pays_parseBlock (parse t after).rest
      have hcons := blocks_parseBlock_cons after ht
      have hle := closers_le_of_suffix (List.suffix_cons t after)
      rw [Pays] at hs hbody ⊢
      omega
termination_by tokens => (tokens.length, 0)

end

theorem pays_parseAll : ∀ (tokens : List Token), (parseAll tokens).Pays blocksAll
  | [] => by
    rw [parseAll]
    exact Nat.le_refl _
  | t :: after => by
    have hs := pays_parse t after
    have hlen := (parse t after).suffix.length_le
    have hall := pays_parseAll (parse t after).rest
    have hcons := blocks_parseAll_cons t after
    have hle := closers_le_of_suffix (List.suffix_cons t after)
    rw [Pays] at hs hall ⊢
    omega
termination_by tokens => tokens.length

/-! ### One brace less -/

variable {c : Grammar.Clause} {brace : Token}

theorem loses_parse_block (ht : t.kind = .leftBrace)
    (h : (parseBlock after).Loses c brace blocksClosed) :
    (parse t after).Loses c brace blocksGiven := by
  have hvar : t.kind ≠ .kwVar := by rw [ht]; decide
  have hprint : t.kind ≠ .kwPrint := by rw [ht]; decide
  obtain ⟨s?, errors, rest, ⟨hv, he, hr⟩, hle⟩ := exists_recover_block (parseBlock after)
  obtain ⟨⟨site, hfirst⟩, hlt⟩ := h
  rw [parse, dif_neg hvar, dif_neg hprint, if_pos ht]
  refine ⟨⟨site, ?_⟩, ?_⟩
  · rw [he, List.head?_append, hfirst]
    rfl
  · rw [hv, hr]
    omega

theorem loses_parseBlock (ht : t.kind ≠ .rightBrace)
    (h : (parse t after).Loses c brace blocksGiven) :
    (parseBlock (t :: after)).Loses c brace blocksClosed := by
  obtain ⟨⟨site, hfirst⟩, hlt⟩ := h
  obtain ⟨-, he, -⟩ := yields_parseBlock ht (yields_self (parse t after))
    (yields_self (parseBlock (parse t after).rest))
  have hbody := pays_parseBlock (parse t after).rest
  have hcons := blocks_parseBlock_cons after ht
  have hle := closers_le_of_suffix (List.suffix_cons t after)
  refine ⟨⟨site, ?_⟩, ?_⟩
  · rw [he, List.head?_append, hfirst]
    rfl
  · rw [Pays] at hbody
    omega

theorem loses_parseAll (h : (parse t after).Loses c brace blocksGiven) :
    (parseAll (t :: after)).Loses c brace blocksAll := by
  obtain ⟨⟨site, hfirst⟩, hlt⟩ := h
  obtain ⟨-, he, -⟩ := yields_parseAll (yields_self (parse t after))
    (yields_self (parseAll (parse t after).rest))
  have hall := pays_parseAll (parse t after).rest
  have hcons := blocks_parseAll_cons t after
  have hle := closers_le_of_suffix (List.suffix_cons t after)
  refine ⟨⟨site, ?_⟩, ?_⟩
  · rw [he, List.head?_append, hfirst]
    rfl
  · rw [Pays] at hall
    omega

end

end Stmt

namespace Grammar

open Reading Stmt

/-! ### The braces of what is written -/

theorem Chain.kind_ne_rightBrace {s t : Symbol} {operators : List Kind} (h : Chain s operators t) :
    ∀ k ∈ operators, k ≠ .rightBrace := by
  cases h <;> decide

theorem Phrase.closers_tokens {s : Symbol} (e : Phrase s) : closers e.tokens = 0 := by
  induction e with
  | expression e ih => exact ih
  | assign target equals value ih => simp [tokens, target.kind_eq, equals.kind_eq, ih]
  | equality e ih => exact ih
  | operand h e ih => exact ih
  | operation h left operator right ihl ihr =>
    have hne := h.kind_ne_rightBrace _ operator.kind_mem
    simp [tokens, hne, ihl, ihr]
  | unary operator right ih =>
    have hne := (by decide : ∀ k ∈ [Kind.bang, .minus], k ≠ .rightBrace) _ operator.kind_mem
    simp [tokens, hne, ih]
  | primary e ih => exact ih
  | literal t =>
    have hne := (by decide : ∀ k ∈ [Kind.number, .string, .kwTrue, .kwFalse, .kwNil],
      k ≠ .rightBrace) _ t.kind_mem
    simp [tokens, hne]
  | name t => simp [tokens, t.kind_eq]
  | group opening inner closing ih => simp [tokens, opening.kind_eq, closing.kind_eq, ih]

theorem Clause.closers_tokens (c : Clause) : closers c.tokens = 0 := by
  cases c with
  | declare keyword name initial =>
    rcases initial with _ | ⟨equals, e⟩
    · simp [tokens, Sentence.initialTokens, keyword.kind_eq, name.kind_eq]
    · simp [tokens, Sentence.initialTokens, keyword.kind_eq, name.kind_eq, equals.kind_eq,
        e.closers_tokens]
  | print keyword e => simp [tokens, keyword.kind_eq, e.closers_tokens]
  | expression e => exact e.closers_tokens

theorem Clause.blocks_close (c : Clause) (semicolon : Terminal [.semicolon]) :
    (c.close semicolon).tree.blocks = 0 := by
  cases c <;> rfl

namespace Draft

mutual

/-- Each block that is kept is closed by a brace, and no other brace is written. -/
theorem closers_tokens : ∀ (d : Draft), closers d.tokens = blocksGiven d.kept?
  | simple c semicolon false => by
    simp [tokens, kept?, c.closers_tokens, semicolon.kind_eq, blocksGiven, blocksAll,
      c.blocks_close]
  | simple c _ true => c.closers_tokens
  | block opening body closing => by
    simp [tokens, kept?, opening.kind_eq, closing.kind_eq, closers_allTokens body, blocksGiven,
      blocksAll, blocks]

theorem closers_allTokens : ∀ (ds : List Draft), closers (allTokens ds) = blocksAll (keptAll ds)
  | [] => rfl
  | d :: ds => by
    rw [allTokens, keptAll, closers_append, blocksAll_append, closers_tokens d,
      closers_allTokens ds, blocksGiven]

end

/-- The first semicolon that a block lacks is that of `c`, before the brace that closes the block or
one within it. -/
inductive GapBefore (c : Clause) (brace : Token) : Draft → Prop
  | last {opening : Terminal [.leftBrace]} {front : List Draft} {semicolon : Terminal [.semicolon]}
      {closing : Terminal [.rightBrace]} (hfront : gapsAll front = 0)
      (hbrace : closing.token = brace) :
      GapBefore c brace (.block opening (front ++ [.simple c semicolon true]) closing)
  | inner {opening : Terminal [.leftBrace]} {front : List Draft} {d : Draft} {after : List Draft}
      {closing : Terminal [.rightBrace]} (hfront : gapsAll front = 0) (hd : GapBefore c brace d) :
      GapBefore c brace (.block opening (front ++ d :: after) closing)

theorem GapBefore.kind_eq {c : Clause} {brace : Token} {d : Draft} (h : GapBefore c brace d) :
    brace.kind = .rightBrace := by
  induction h with
  | @last _ _ _ closing _ hbrace =>
    rw [← hbrace]
    exact closing.kind_eq
  | inner _ _ ih => exact ih

section

variable {c : Clause} {brace : Token} {front : List Draft} {rest : List Token}

/-- What is lost after drafts that are complete is lost with them. -/
theorem loses_parseBlock_append (hfront : gapsAll front = 0)
    (h : (parseBlock rest).Loses c brace blocksClosed) :
    (parseBlock (allTokens front ++ rest)).Loses c brace blocksClosed := by
  obtain ⟨⟨site, hfirst⟩, hlt⟩ := h
  obtain ⟨hv, he, hr⟩ := yields_parseBlock front (allRecoverable_of_gapsAll hfront)
    (yields_self (parseBlock rest))
  have hmap := blocksClosed_map_append (keptAll front) (parseBlock rest).value
  refine ⟨⟨site, ?_⟩, ?_⟩
  · rw [he, allErrors_of_gapsAll hfront, List.nil_append, hfirst]
  · rw [hv, hr, closers_append, closers_allTokens]
    omega

theorem loses_parseAll_append (hfront : gapsAll front = 0)
    (h : (parseAll rest).Loses c brace blocksAll) :
    (parseAll (allTokens front ++ rest)).Loses c brace blocksAll := by
  obtain ⟨⟨site, hfirst⟩, hlt⟩ := h
  obtain ⟨hv, he, hr⟩ := yields_parseAll front (allRecoverable_of_gapsAll hfront)
    (yields_self (parseAll rest))
  refine ⟨⟨site, ?_⟩, ?_⟩
  · rw [he, allErrors_of_gapsAll hfront, List.nil_append, hfirst]
  · rw [hv, hr, closers_append, closers_allTokens, blocksAll_append]
    omega

/-- A clause without its semicolon takes the brace that follows it along. -/
theorem loses_clause (hbrace : brace.kind = .rightBrace) (c : Clause) (rest : List Token) :
    (parseBlock (c.tokens ++ brace :: rest)).Loses c brace blocksClosed := by
  have hends : Ends (brace :: rest) := ends_of_kind hbrace (by decide)
  have hsemicolon : ∀ t ∈ (brace :: rest).head?, t.kind ≠ .semicolon := by
    simp [hbrace]
  obtain ⟨t, after, ht, hk, hread⟩ := c.yields hends hsemicolon
  have hresume : resume (brace :: rest) <:+ rest :=
    resume_cons_suffix (by rw [hbrace]; decide) (by rw [hbrace]; decide)
  obtain ⟨hv, he, hr⟩ := Stmt.yields_parseBlock hk hread
    (yields_self (parseBlock (resume (brace :: rest))))
  have hpays := pays_parseBlock (resume (brace :: rest))
  have hmap := blocksClosed_map_append [] (parseBlock (resume (brace :: rest))).value
  have hle := closers_le_of_suffix hresume
  refine ⟨⟨rest, ?_⟩, ?_⟩
  · rw [ht, he]
    rfl
  · rw [closers_append, closers_cons, if_pos hbrace, ht, hv, hr]
    rw [Pays] at hpays
    rw [blocksAll] at hmap
    simp only [Option.toList]
    omega

theorem GapBefore.loses_parse {d : Draft} (h : GapBefore c brace d) (rest : List Token) :
    ∃ t after, d.tokens ++ rest = t :: after ∧ t.kind ≠ .rightBrace
      ∧ (parse t after).Loses c brace blocksGiven := by
  -- The brace is lost in the innermost block, and each block around it goes on from there with
  -- one brace less than it needs.
  induction h generalizing rest with
  | @last opening front semicolon closing hfront hbrace =>
    have hkind : brace.kind = .rightBrace := hbrace ▸ closing.kind_eq
    have hbody := loses_parseBlock_append hfront (loses_clause hkind c rest)
    refine ⟨opening.token, _, ?_, by rw [opening.kind_eq]; decide,
      loses_parse_block opening.kind_eq hbody⟩
    simp [tokens, allTokens_append, allTokens, hbrace]
  | @inner opening front d after closing hfront hd ih =>
    obtain ⟨t, rest', ht, hk, hlost⟩ := ih (allTokens after ++ closing.token :: rest)
    have hbody := loses_parseBlock_append hfront (Stmt.loses_parseBlock hk hlost)
    refine ⟨opening.token, _, ?_, by rw [opening.kind_eq]; decide,
      loses_parse_block opening.kind_eq hbody⟩
    simp [tokens, allTokens_append, allTokens, ← ht]

end

end Draft

/-- From a program without errors, semicolons are left out, the first of them before the brace that
closes a block, at any depth. The first report is at that brace, and fewer blocks are read than were
written. -/
theorem program_of_gapBefore {s : TokenStream} (h : s.program.errors = []) :
    ∃ ds, Sentence.allTokens ds = s.ahead ∧ Sentence.trees ds = s.program.value
      ∧ ∀ c brace front d after, Draft.meantAll (front ++ d :: after) = ds →
        Draft.gapsAll front = 0 → Draft.GapBefore c brace d →
        ∀ p, p = { s with ahead := Draft.allTokens (front ++ d :: after) }.program →
          (p.errors.map (Report.ofSyntaxError s.final)).head?
              = some ⟨.syntactic, brace.line, .atLexeme brace.lexeme, c.complaint⟩
            ∧ blocksAll p.value < blocksAll (Draft.keptAll (front ++ d :: after)) := by
  obtain ⟨ds, htokens, htrees⟩ := exists_sentences ⟨rfl, h, rfl⟩
  refine ⟨ds, htokens, htrees, ?_⟩
  rintro c brace front d after - hfront hd p rfl
  obtain ⟨t, rest, ht, -, hlost⟩ := hd.loses_parse (Draft.allTokens after)
  have hall := Draft.loses_parseAll_append hfront (Stmt.loses_parseAll hlost)
  rw [← ht] at hall
  obtain ⟨⟨site, hfirst⟩, hlt⟩ := hall
  have happ : Draft.allTokens (front ++ d :: after)
      = Draft.allTokens front ++ (d.tokens ++ Draft.allTokens after) := by
    rw [Draft.allTokens_append, Draft.allTokens]
  have hne : brace.kind ≠ .eof := by
    rw [hd.kind_eq]
    decide
  rw [← Draft.closers_allTokens, happ]
  refine ⟨?_, ?_⟩
  · rw [List.head?_map, TokenStream.program]
    simp only [hfirst, Option.map_some]
    rw [c.ofSyntaxError_cause rfl hne]
  · rw [TokenStream.program]
    simp only
    omega

namespace Draft

/-- The block of `print nil`, without a semicolon. -/
def openBlock : Draft :=
  inBraces [.simple printNil (.word .semicolon ";") true]

/-- The sentence `print nil;`. -/
def closedPrint : Draft :=
  .simple printNil (.word .semicolon ";") false

theorem gapBefore_openBlock :
    GapBefore printNil ⟨.rightBrace, "\x7d", .nil, 1⟩ openBlock :=
  @GapBefore.last _ _ _ [] _ _ rfl rfl

end Draft

open Draft in
theorem program_of_gapBefore_openBlock :
    ∃ p, p = (TokenStream.mk (allTokens [openBlock, closedPrint]) (Token.atEnd 1)).program
      ∧ (p.errors.map (Report.ofSyntaxError (Token.atEnd 1))).head?
        = some ⟨.syntactic, 1, .atLexeme "\x7d", "Expect ';' after value."⟩
      ∧ blocksAll p.value = 0 := by
  have hmeant := (Sentence.gives_parseAll (meantAll [openBlock, closedPrint])).2.1
  obtain ⟨ds, htokens, -, hread⟩ := @program_of_gapBefore
    ⟨Sentence.allTokens (meantAll [openBlock, closedPrint]), Token.atEnd 1⟩ hmeant
  obtain ⟨hfirst, hlt⟩ := hread printNil _ [] openBlock [closedPrint]
    (Sentence.eq_of_allTokens htokens.symm) rfl gapBefore_openBlock _ rfl
  exact ⟨_, rfl, hfirst, Nat.lt_one_iff.1 hlt⟩

open Draft in
/-- The block of `print nil` and `print nil;` after it are both lost, with a second report, at the
end. -/
theorem openBlock_not_closed :
    (TokenStream.mk (Sentence.allTokens (meantAll [openBlock, closedPrint]))
        (Token.atEnd 1)).program.errors = []
      ∧ ∃ p, p = (TokenStream.mk (allTokens [openBlock, closedPrint]) (Token.atEnd 1)).program
        ∧ keptAll [openBlock, closedPrint] = [.block [], .print (.literal .nil)] ∧ p.value = []
        ∧ (p.errors.map fun e => (Report.ofSyntaxError (Token.atEnd 1) e).text)
          = ["[line 1] Error at '\x7d': Expect ';' after value.",
            "[line 1] Error at end: Expect '\x7d' after block."] := by
  have hmeant := (Sentence.gives_parseAll (meantAll [openBlock, closedPrint])).2.1
  have herrors : (TokenStream.mk (allTokens [openBlock, closedPrint])
      (Token.atEnd 1)).program.errors = [⟨.semicolonAfterValue,
        ⟨.rightBrace, "\x7d", .nil, 1⟩ :: closedPrint.tokens⟩, ⟨.closingBrace, []⟩] := by
    cbv
  refine ⟨hmeant, _, rfl, rfl, by cbv, ?_⟩
  rw [herrors]
  decide

end Grammar

end Scriptlet
