import Scriptlet.Proofs.Cursor
import Scriptlet.Proofs.MissingSemicolon
import Scriptlet.Proofs.TargetErrors

/-!
# Where errors are reported, and how often

Errors of one reading are at different tokens, except at the end, where a statement and every block
around it can fail. They come in the order of these tokens, but for those of assignment targets,
which are reported once the right side is read. Each statement that is read or left out keeps this
so (`SyntaxError.InOrder`). A reading therefore reports no more errors than there are tokens, the
end among them (`TokenStream.errors_bounded`).
-/

namespace Scriptlet

namespace SyntaxError

open Grammar

variable {a b c : List Token} {errors errors' : List SyntaxError} {t : Token} {after : List Token}

/-! ### How many errors there can be -/

/-- As many as there are tokens with the property, and one for the end, unless no token is left. -/
def room (p : Token → Bool) : List Token → Nat
  | [] => 0
  | t :: after => (t :: after).countP p + 1

theorem room_le (p : Token → Bool) (tokens : List Token) : room p tokens ≤ tokens.countP p + 1 := by
  cases tokens with
  | nil => exact Nat.zero_le _
  | cons t after => exact Nat.le_refl _

theorem room_of_ne_nil {p : Token → Bool} (h : a ≠ []) : room p a = a.countP p + 1 := by
  cases a with
  | nil => exact absurd rfl h
  | cons t after => rfl

theorem room_mono {p : Token → Bool} (h : b <:+ a) : room p b ≤ room p a := by
  cases b with
  | nil => exact Nat.zero_le _
  | cons t after =>
    have hne : a ≠ [] := by
      rintro rfl
      exact List.cons_ne_nil t after (List.suffix_nil.1 h)
    rw [room_of_ne_nil hne]
    exact Nat.succ_le_succ h.sublist.countP_le

theorem room_cons {p : Token → Bool} (h : p t) (after : List Token) :
    room p after + 1 ≤ room p (t :: after) := by
  have := room_le p after
  rw [room, List.countP_cons_of_pos h]
  omega

/-- Room for an error at each token and at the end. -/
def roomInAll (tokens : List Token) : Nat :=
  room (fun _ => true) tokens

theorem roomInAll_le (tokens : List Token) : roomInAll tokens ≤ tokens.length + 1 := by
  have hle := room_le (fun _ => true) tokens
  rwa [List.countP_true] at hle

theorem roomInAll_of_ne_nil (h : a ≠ []) : roomInAll a = a.length + 1 := by
  rw [roomInAll, room_of_ne_nil h, List.countP_true]

/-- Room for errors at the end, one of a statement and one of each block around it. -/
def roomAtEnd (tokens : List Token) : Nat :=
  room (fun t => t.kind = .leftBrace) tokens

theorem roomAtEnd_cons (ht : t.kind = .leftBrace) (after : List Token) :
    roomAtEnd after + 1 ≤ roomAtEnd (t :: after) :=
  room_cons (decide_eq_true ht) after

/-- How many of the errors are at the end. -/
def atEnd (errors : List SyntaxError) : Nat :=
  errors.countP fun e => e.site = []

theorem atEnd_append (errors errors' : List SyntaxError) :
    atEnd (errors ++ errors') = atEnd errors + atEnd errors' :=
  List.countP_append

theorem atEnd_singleton_add_le (h : b <:+ a) (ha : a ≠ []) (cause : Cause) :
    atEnd [⟨cause, b⟩] + roomAtEnd b ≤ roomAtEnd a := by
  cases b with
  | nil =>
    cases a with
    | nil => exact absurd rfl ha
    | cons t after => exact Nat.succ_le_succ (Nat.zero_le _)
  | cons t after =>
    have hzero : atEnd [⟨cause, t :: after⟩] = 0 := rfl
    rw [hzero, Nat.zero_add]
    exact room_mono h

theorem suffix_antisymm (h : b <:+ a) (h' : a <:+ b) : b = a :=
  h.eq_of_length (Nat.le_antisymm h.length_le h'.length_le)

/-- Errors on the way from `start` to `rest`, at different tokens before the end, and in the order
of these but for those of assignment targets. Before a `var` or `print` there is either the error of
the statement before it or one of its own. -/
structure InOrder (start : List Token) (errors : List SyntaxError) (rest : List Token) : Prop where
  suffix : rest <:+ start
  within : ∀ e ∈ errors, rest <:+ e.site ∧ e.site <:+ start
  first : ∀ e ∈ errors, e.site = start → ¬ KeywordFirst start
  last : ∀ e ∈ errors, e.site = rest → rest = [] ∨ KeywordFirst rest
  once : errors.Pairwise fun e e' => e.site = e'.site → e.site = []
  forward : errors.Pairwise fun e e' =>
    e.cause ≠ .assignmentTarget → e'.cause ≠ .assignmentTarget → e'.site <:+ e.site
  total : errors.length + roomInAll rest ≤ roomInAll start
  ends : atEnd errors + roomAtEnd rest ≤ roomAtEnd start

namespace InOrder

theorem nil (h : b <:+ a) : InOrder a [] b where
  suffix := h
  within := List.forall_mem_nil _
  first := List.forall_mem_nil _
  last := List.forall_mem_nil _
  once := .nil
  forward := .nil
  total := by
    rw [List.length_nil, Nat.zero_add]
    exact room_mono h
  ends := by
    rw [atEnd, List.countP_nil, Nat.zero_add]
    exact room_mono h

theorem append (h : InOrder a errors b) (h' : InOrder b errors' c) :
    InOrder a (errors ++ errors') c where
  suffix := h'.suffix.trans h.suffix
  within := List.forall_mem_append.2
    ⟨fun e he => (h.within e he).imp_left h'.suffix.trans,
      fun e he => (h'.within e he).imp_right fun hsite => hsite.trans h.suffix⟩
  first := by
    refine List.forall_mem_append.2 ⟨h.first, fun e he hsite => ?_⟩
    obtain rfl : b = a := suffix_antisymm h.suffix (hsite ▸ (h'.within e he).2)
    exact h'.first e he hsite
  last := by
    refine List.forall_mem_append.2 ⟨fun e he hsite => ?_, h'.last⟩
    obtain rfl : c = b := suffix_antisymm h'.suffix (hsite ▸ (h.within e he).1)
    exact h.last e he hsite
  once := by
    refine List.pairwise_append.2 ⟨h.once, h'.once, fun e he e' he' heq => ?_⟩
    -- Both errors are at `b`, where only the end has room for two.
    have hb : e'.site = b := suffix_antisymm (h'.within e' he').2 (heq ▸ (h.within e he).1)
    have hlast := h.last e he (heq.trans hb)
    exact (heq.trans hb).trans (hlast.resolve_right (h'.first e' he' hb))
  forward := List.pairwise_append.2 ⟨h.forward, h'.forward, fun e he e' he' _ _ =>
    (h'.within e' he').2.trans (h.within e he).1⟩
  total := by
    have := h.total
    have := h'.total
    rw [List.length_append]
    omega
  ends := by
    have := h.ends
    have := h'.ends
    rw [atEnd_append]
    omega

end InOrder

namespace AtEquals

theorem not_keywordFirst (h : AtEquals a errors b) :
    ∀ e ∈ errors, e.site = a → ¬ KeywordFirst a := by
  intro e he hsite hkeyword
  obtain ⟨-, equals, after, heq, hk, -⟩ := h.site e he
  rw [← hsite, heq, keywordFirst_cons, hk] at hkeyword
  exact absurd hkeyword (by decide)

theorem atEnd_eq (h : AtEquals a errors b) : atEnd errors = 0 := by
  refine List.countP_eq_zero.2 fun e he hend => ?_
  have hlt := h.length_site e he
  rw [of_decide_eq_true hend] at hlt
  exact Nat.not_lt_zero _ hlt

theorem forward (h : AtEquals a errors b) : errors.Pairwise fun e e' =>
    e.cause ≠ .assignmentTarget → e'.cause ≠ .assignmentTarget → e'.site <:+ e.site :=
  List.Pairwise.imp_of_mem (fun he _ _ hcause => absurd (h.cause _ he) hcause) h.once

theorem inOrder (h : AtEquals a errors b) : InOrder a errors b where
  suffix := h.suffix
  within := h.within
  first := h.not_keywordFirst
  last e he hsite := absurd hsite (h.site_ne e he)
  once := h.once.imp fun hne heq => absurd heq hne
  forward := h.forward
  total := by
    rcases h.total with ⟨rfl, rfl⟩ | hlt
    · exact Nat.le_of_eq (Nat.zero_add _)
    · have hne : a ≠ [] := List.ne_nil_of_length_pos (Nat.zero_lt_of_lt hlt)
      have := roomInAll_le b
      rw [roomInAll_of_ne_nil hne]
      omega
  ends := by
    rw [h.atEnd_eq, Nat.zero_add]
    exact room_mono h.suffix

/-- The error of a statement at a place where reading goes on. -/
theorem fail_before (h : AtEquals a errors b) (hne : b ≠ a) (hstop : b = [] ∨ KeywordFirst b)
    (cause : Cause) : InOrder a (errors ++ [⟨cause, b⟩]) b where
  suffix := h.suffix
  within := List.forall_mem_append.2
    ⟨h.within, List.forall_mem_singleton.2 ⟨List.suffix_rfl, h.suffix⟩⟩
  first := List.forall_mem_append.2
    ⟨h.not_keywordFirst, List.forall_mem_singleton.2 fun heq => absurd heq hne⟩
  last _ _ _ := hstop
  once := by
    refine List.pairwise_append.2 ⟨h.once.imp fun hne heq => absurd heq hne,
      List.pairwise_singleton _ _, fun e he e' he' heq => ?_⟩
    rw [List.mem_singleton.1 he'] at heq
    exact absurd heq (h.site_ne e he)
  forward := List.pairwise_append.2 ⟨h.forward, List.pairwise_singleton _ _,
    fun e he _ _ hcause => absurd (h.cause e he) hcause⟩
  total := by
    have hlt := h.total.resolve_left fun hnil => hne hnil.2
    have := roomInAll_le b
    rw [List.length_append, List.length_singleton, roomInAll_of_ne_nil (h.ne_nil hne)]
    omega
  ends := by
    rw [atEnd_append, h.atEnd_eq, Nat.zero_add]
    exact atEnd_singleton_add_le h.suffix (h.ne_nil hne) cause

end AtEquals

/-- The error of a statement at a token that is dropped. -/
theorem inOrder_dropped (hkeyword : ¬ KeywordFirst (t :: after)) (cause : Cause) :
    InOrder (t :: after) [⟨cause, t :: after⟩] (Reading.resume (t :: after)) := by
  obtain ⟨hv, hp⟩ := not_or.1 (mt keywordFirst_cons.2 hkeyword)
  have hresume : Reading.resume (t :: after) <:+ after := Reading.resume_cons_suffix hv hp
  have hsuffix := hresume.trans (List.suffix_cons t after)
  refine
    { suffix := hsuffix
      within := List.forall_mem_singleton.2 ⟨hsuffix, List.suffix_rfl⟩
      first := List.forall_mem_singleton.2 fun _ => hkeyword
      last := List.forall_mem_singleton.2 fun heq => ?_
      once := List.pairwise_singleton _ _
      forward := List.pairwise_singleton _ _
      total := ?_
      ends := ?_ }
  · have hle := hresume.length_le
    rw [← heq, List.length_cons] at hle
    exact absurd hle (Nat.not_succ_le_self _)
  · rw [List.length_singleton, Nat.add_comm]
    exact Nat.le_trans (Nat.succ_le_succ (room_mono hresume)) (room_cons rfl after)
  · have hzero : atEnd [⟨cause, t :: after⟩] = 0 := rfl
    rw [hzero, Nat.zero_add]
    exact room_mono hsuffix

/-- The error of a block that is not closed. -/
theorem InOrder.unclosed (h : InOrder after errors []) (ht : t.kind = .leftBrace) (cause : Cause) :
    InOrder (t :: after) (errors ++ [⟨cause, []⟩]) [] where
  suffix := List.nil_suffix
  within := List.forall_mem_append.2
    ⟨fun e he => ⟨List.nil_suffix, (h.within e he).2.trans (List.suffix_cons t after)⟩,
      List.forall_mem_singleton.2 ⟨List.nil_suffix, List.nil_suffix⟩⟩
  first _ _ _ hkeyword := by
    rw [keywordFirst_cons, ht] at hkeyword
    exact absurd hkeyword (by decide)
  last _ _ _ := .inl rfl
  once := List.pairwise_append.2 ⟨h.once, List.pairwise_singleton _ _, fun e _ e' he' heq => by
    rw [heq, List.mem_singleton.1 he']⟩
  forward := List.pairwise_append.2 ⟨h.forward, List.pairwise_singleton _ _,
    fun e _ e' he' _ _ => by
      rw [List.mem_singleton.1 he']
      exact List.nil_suffix⟩
  total := by
    rw [List.length_append, List.length_singleton, Nat.add_right_comm]
    exact Nat.le_trans (Nat.succ_le_succ h.total) (room_cons rfl after)
  ends := by
    have := h.ends
    have := roomAtEnd_cons ht after
    have hone : atEnd [⟨cause, []⟩] = 1 := rfl
    rw [atEnd_append, hone]
    omega

end SyntaxError

namespace Reading

open SyntaxError Grammar

variable {α : Type} {tokens start : List Token}

/-- A statement that starts with the tokens `start`, of which `r` reads at least the first, unless
that may be dropped. -/
theorem inOrder_recover {r : Attempt tokens α} (h : SyntaxError.AtEquals start r.errors r.rest)
    (hstart : r.rest = start → start ≠ [] ∧ ¬ KeywordFirst start) :
    InOrder start r.recover.errors r.recover.rest := by
  rcases hr : r.value with cause | a
  · rw [recover_of_error hr]
    by_cases hstop : r.rest = [] ∨ KeywordFirst r.rest
    · have hresume : resume r.rest = r.rest := by
        rcases hstop with hnil | hkeyword
        · rw [hnil, resume]
        · exact hkeyword.resume_eq
      have hne : r.rest ≠ start := fun heq => by
        rw [heq] at hstop
        exact hstop.elim (hstart heq).1 (hstart heq).2
      simp only [hresume]
      exact h.fail_before hne hstop cause
    · obtain ⟨hnil, hkeyword⟩ := not_or.1 hstop
      obtain ⟨t, after, hcons⟩ := List.exists_cons_of_ne_nil hnil
      rw [hcons] at hkeyword
      have hdropped := inOrder_dropped hkeyword cause
      rw [← hcons] at hdropped
      exact h.inOrder.append hdropped
  · rw [recover_of_ok hr]
    exact h.inOrder

end Reading

namespace Stmt

open Reading SyntaxError Grammar

/-- Nothing ends a block that is not closed but the end. -/
theorem rest_parseBlock_of_error : ∀ {tokens : List Token} {cause : SyntaxError.Cause},
    (parseBlock tokens).value = .error cause → (parseBlock tokens).rest = []
  | [], _, _ => by
    rw [parseBlock]
    rfl
  | t :: after, cause, h => by
    by_cases ht : t.kind = .rightBrace
    · rw [parseBlock, if_pos ht] at h
      cases h
    · have hlen := (parse t after).suffix.length_le
      obtain ⟨hv, -, hr⟩ := yields_parseBlock ht (yields_self (parse t after))
        (yields_self (parseBlock (parse t after).rest))
      rw [hv] at h
      rw [hr]
      cases hb : (parseBlock (parse t after).rest).value with
      | ok body =>
        rw [hb] at h
        cases h
      | error cause' => exact rest_parseBlock_of_error hb
termination_by tokens => tokens.length

theorem inOrder_block {t : Token} {after : List Token} (ht : t.kind = .leftBrace)
    (h : InOrder after (parseBlock after).errors (parseBlock after).rest) :
    let r := ((parseBlock after).andThen fun body _ _ => done (block body)).recover
    InOrder (t :: after) r.errors r.rest := by
  intro r
  have hy := (yields_self (parseBlock after)).andThen_done (f := block)
  cases hv : (parseBlock after).value with
  | error cause =>
    rw [hv] at hy
    obtain ⟨-, he, hr⟩ := hy.recover
    rw [rest_parseBlock_of_error hv] at h he hr
    show InOrder (t :: after) r.errors r.rest
    rw [he, hr]
    exact h.unclosed ht cause
  | ok body =>
    rw [hv] at hy
    obtain ⟨-, he, hr⟩ := hy.recover_ok
    show InOrder (t :: after) r.errors r.rest
    rw [he, hr]
    exact (InOrder.nil (List.suffix_cons t after)).append h

mutual

theorem inOrder_parse (t : Token) (after : List Token) :
    InOrder (t :: after) (parse t after).errors (parse t after).rest := by
  -- A reading of what follows `t` is past it.
  have hpast : ∀ {α : Type} (r : Attempt after α), r.rest = t :: after →
      t :: after ≠ [] ∧ ¬ KeywordFirst (t :: after) := fun r hr => by
    have hle := r.suffix.length_le
    rw [hr] at hle
    exact absurd hle (Nat.not_succ_le_self _)
  rw [parse]
  split
  · exact inOrder_recover (atEquals_parseDeclaration after).past (hpast _)
  split
  · exact inOrder_recover (Expr.atEquals_parse after).andThen_expect.past (hpast _)
  split
  · exact inOrder_block ‹_› (inOrder_parseBlock after)
  · rename_i hvar hprint _
    exact inOrder_recover (Expr.atEquals_parse (t :: after)).andThen_expect fun _ =>
      ⟨List.cons_ne_nil t after, fun hkeyword => (keywordFirst_cons.1 hkeyword).elim hvar hprint⟩
termination_by (after.length, 1)

theorem inOrder_parseBlock : ∀ tokens : List Token,
    InOrder tokens (parseBlock tokens).errors (parseBlock tokens).rest
  | [] => by
    rw [parseBlock]
    exact .nil List.suffix_rfl
  | t :: after => by
    by_cases ht : t.kind = .rightBrace
    · rw [parseBlock, if_pos ht]
      exact .nil (List.suffix_cons t after)
    · have hlen := (parse t after).suffix.length_le
      obtain ⟨-, he, hr⟩ := yields_parseBlock ht (yields_self (parse t after))
        (yields_self (parseBlock (parse t after).rest))
      rw [he, hr]
      exact (inOrder_parse t after).append (inOrder_parseBlock _)
termination_by tokens => (tokens.length, 0)

end

theorem inOrder_parseAll : ∀ tokens : List Token,
    InOrder tokens (parseAll tokens).errors (parseAll tokens).rest
  | [] => by
    rw [parseAll]
    exact .nil List.suffix_rfl
  | t :: after => by
    have hlen := (parse t after).suffix.length_le
    obtain ⟨-, he, hr⟩ := yields_parseAll (yields_self (parse t after))
      (yields_self (parseAll (parse t after).rest))
    rw [he, hr]
    exact (inOrder_parse t after).append (inOrder_parseAll _)
termination_by tokens => tokens.length

end Stmt

/-! ### Places -/

namespace TokenStream

/-- The place of an error among the tokens of the stream. -/
def place (s : TokenStream) (e : SyntaxError) : Nat :=
  s.ahead.length - e.site.length

variable {s : TokenStream} {e e' : SyntaxError}

theorem place_lt_iff (h : e.site <:+ s.ahead) : s.place e < s.ahead.length ↔ e.site ≠ [] := by
  have hle := h.length_le
  have hpos := List.length_pos_iff (l := e.site)
  rw [place, ← hpos]
  omega

theorem place_eq_length_iff (h : e.site <:+ s.ahead) :
    s.place e = s.ahead.length ↔ e.site = [] := by
  have hle := h.length_le
  rw [place, ← List.length_eq_zero_iff]
  omega

theorem site_eq_of_place (h : e.site <:+ s.ahead) (h' : e'.site <:+ s.ahead)
    (heq : s.place e = s.place e') : e.site = e'.site := by
  have hle := h.length_le
  have hle' := h'.length_le
  have hlength : e.site.length = e'.site.length := by
    rw [place, place] at heq
    omega
  exact (List.suffix_of_suffix_length_le h h' (Nat.le_of_eq hlength)).eq_of_length hlength

theorem place_le_of_suffix (h : e'.site <:+ e.site) : s.place e ≤ s.place e' :=
  Nat.sub_le_sub_left h.length_le _

theorem report_place {x : Tape} (h : e.site <:+ x.stream.ahead) :
    ∃ t ∈ x.tokens[x.stream.place e]?,
      Report.ofSyntaxError x.stream.final e = .syntactic t e.cause.message := by
  have hplace : x.stream.place e + e.site.length = x.stream.ahead.length :=
    Nat.sub_add_cancel h.length_le
  have hstands : Cursor.Stands x e.site { tokens := x.tokens, place := x.stream.place e } :=
    ⟨rfl, h, hplace⟩
  exact ⟨_, hstands.get_place, rfl⟩

/-! Of errors in order, all of them from one place of the stream on. -/

section

variable {ahead rest : List Token} {errors : List SyntaxError} {i : Nat}
  (h : SyntaxError.InOrder ahead errors rest) (hahead : ahead <:+ s.ahead)
include h hahead

theorem count_place_le_one (hi : i < s.ahead.length) : (errors.map s.place).count i ≤ 1 := by
  refine Nat.le_of_not_lt fun htwice => ?_
  have hpairwise : (errors.map s.place).Pairwise fun i j => i = j → i = s.ahead.length := by
    refine List.pairwise_map.2 (h.once.imp_of_mem fun he he' honce heq => ?_)
    have hsite := (h.within _ he).2.trans hahead
    have hsite' := (h.within _ he').2.trans hahead
    exact (place_eq_length_iff hsite).2 (honce (site_eq_of_place hsite hsite' heq))
  have hsub : (List.replicate 2 i).Sublist (errors.map s.place) :=
    List.replicate_sublist_iff.2 htwice
  exact Nat.ne_of_lt hi (List.pairwise_iff_forall_sublist.1 hpairwise hsub rfl)

theorem count_place_length :
    (errors.map s.place).count s.ahead.length = SyntaxError.atEnd errors := by
  rw [List.count_eq_countP, List.countP_map, SyntaxError.atEnd]
  refine List.countP_congr fun e he => ?_
  rw [Function.comp_apply, beq_iff_eq, decide_eq_true_iff]
  exact place_eq_length_iff ((h.within e he).2.trans hahead)

theorem pairwise_place : ((errors.filter (·.cause ≠ .assignmentTarget)).map s.place).Pairwise
    fun i j => i ≤ j ∧ (i < s.ahead.length → i < j) := by
  refine List.pairwise_map.2 ?_
  refine ((h.once.and h.forward).filter _).imp_of_mem fun {e e'} hmem hmem' ⟨honce, hforward⟩ => ?_
  obtain ⟨he, hcause⟩ := List.mem_filter.1 hmem
  obtain ⟨he', hcause'⟩ := List.mem_filter.1 hmem'
  have hle : s.place e ≤ s.place e' :=
    place_le_of_suffix (hforward (of_decide_eq_true hcause) (of_decide_eq_true hcause'))
  refine ⟨hle, fun hlt => Nat.lt_of_le_of_ne hle fun heq => ?_⟩
  have hsite := (h.within e he).2.trans hahead
  have hsite' := (h.within e' he').2.trans hahead
  exact (place_lt_iff hsite).1 hlt (honce (site_eq_of_place hsite hsite' heq))

end

/-- A reading from any place of tokens with an end at their end reports at most one error at each
token before the first end, and at that end at most one and one for each brace that may open a
block. In all there are no more errors than tokens up to that end. But for those of assignment
targets, every error is at a later token than those reported before it, or at the end. -/
theorem errors_bounded (front : List Token) {final : Token} (hfinal : final.kind = .eof) :
    let tokens := front ++ [final]
    let first := tokens.findIdx fun t => t.kind = .eof
    ∃ s, ofList? tokens = some s ∧ ∀ start ≤ first,
      let ahead := s.ahead.drop start
      let errors := ({ s with ahead } : TokenStream).program.errors
      let places := errors.map s.place
      (∀ e ∈ errors, start ≤ s.place e ∧ s.place e ≤ first ∧ ∃ t ∈ tokens[s.place e]?,
        Report.ofSyntaxError s.final e = .syntactic t e.cause.message)
      ∧ (∀ i < first, places.count i ≤ 1)
      ∧ places.count first ≤ 1 + ahead.countP (fun t => t.kind = .leftBrace)
      ∧ start + errors.length ≤ first + 1
      ∧ ((errors.filter (·.cause ≠ .assignmentTarget)).map s.place).Pairwise fun i j =>
        i ≤ j ∧ (i < first → i < j) := by
  obtain ⟨x, hx⟩ := Tape.exists_tokens_eq hfinal front
  rw [← hx]
  intro tokens first
  have hfirst : first = x.stream.ahead.length := x.findIdx_tokens
  refine ⟨x.stream, x.ofList?_tokens, fun start hstart => ?_⟩
  intro ahead errors places
  rw [hfirst] at hstart ⊢
  have h : SyntaxError.InOrder ahead errors (Stmt.parseAll ahead).rest :=
    Stmt.inOrder_parseAll ahead
  have hahead : ahead <:+ x.stream.ahead := List.drop_suffix _ _
  have hlength : ahead.length = x.stream.ahead.length - start := List.length_drop
  refine ⟨fun e he => ⟨?_, Nat.sub_le _ _, report_place ((h.within e he).2.trans hahead)⟩,
    fun i => count_place_le_one h hahead, ?_, ?_, pairwise_place h hahead⟩
  · have hle := (h.within e he).2.length_le
    rw [place]
    omega
  · rw [count_place_length h hahead]
    have hends := h.ends
    have := SyntaxError.room_le (fun t => t.kind = .leftBrace) ahead
    rw [SyntaxError.roomAtEnd, SyntaxError.roomAtEnd] at hends
    omega
  · have := h.total
    have := SyntaxError.roomInAll_le ahead
    omega

/-- Three errors are at the end: one of the declaration, and one of each open block. -/
theorem errors_bounded_unclosed :
    let opening : Token := ⟨.leftBrace, "\x7b", .nil, 1⟩
    let nothing : Token := ⟨.kwNil, "nil", .nil, 1⟩
    let front := [opening, opening, nothing, ⟨.equal, "=", .nil, 1⟩, nothing,
      ⟨.kwVar, "var", .nil, 1⟩]
    (Token.atEnd 1).kind = .eof ∧ ∃ s, ofList? (front ++ [.atEnd 1]) = some s
      ∧ s.program.errors.map s.place = [3, 5, 6, 6, 6]
      ∧ (s.program.errors.map s.place).count 6
        ≤ 1 + s.ahead.countP (fun t => t.kind = .leftBrace)
      ∧ s.program.errors.length ≤ 7 := by
  intro opening nothing front
  have hfinal : (Token.atEnd 1).kind = .eof := rfl
  obtain ⟨s, hs, hstart⟩ := errors_bounded front hfinal
  obtain rfl : (⟨front, .atEnd 1⟩ : TokenStream) = s := Option.some.inj hs
  obtain ⟨-, -, hends, htotal, -⟩ := hstart 0 (Nat.zero_le _)
  rw [Nat.zero_add] at htotal
  refine ⟨hfinal, _, rfl, ?_, hends, htotal⟩
  cbv

end TokenStream

end Scriptlet
