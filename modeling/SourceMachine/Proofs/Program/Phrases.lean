import SourceMachine.Proofs.Program.Gives
import SourceMachine.Proofs.Program.Outline

/-!
# Phrases of the grammar

What each reader of the grammar gives on the words of a phrase, when the readers of its
parts give what they should on theirs.
-/

namespace SourceMachine

variable {k : Kind} {ps : Params} {b : Block} {before ys : List (Name × Bool)} {read : List Param}
  {start : Span} {x : Name} {id : Identifier} {s : Stream} {ι : Type}

namespace Grammar

open Reader Outline

/-! ## Tokens around phrases -/

/-- The token after a primary expression is no arrow. -/
def endsPrimary (k : Kind) : Bool :=
  k ≠ .mark .arrow

/-- The token after a call expression goes on with none of its suffixes. -/
def endsCall (k : Kind) : Bool :=
  endsPrimary k && k ≠ .mark .lParen && k ≠ .mark .dot && k ≠ .mark .lBracket

/-- The token after an operand does not count it up or down. -/
def endsOperand (k : Kind) : Bool :=
  endsCall k && (updateOp? k).isNone

/-- The token after joined operands is no operator. -/
def endsBinary (k : Kind) : Bool :=
  endsOperand k && (operator? k).isNone

/-- The token after a conditional expression does not make it the test of another one. -/
def endsConditional (k : Kind) : Bool :=
  endsBinary k && k ≠ .mark .question

/-- The token after a whole expression assigns nothing to it. -/
def endsExpression (k : Kind) : Bool :=
  endsConditional k && (assignOp? k).isNone

theorem endsCall_iff : endsCall k = true ↔ endsPrimary k = true ∧
    k ≠ .mark .lParen ∧ k ≠ .mark .dot ∧ k ≠ .mark .lBracket := by
  simp only [endsCall, Bool.and_eq_true, decide_eq_true_eq, and_assoc]

theorem endsOperand_iff : endsOperand k = true ↔ endsCall k = true ∧ updateOp? k = none := by
  simp only [endsOperand, Bool.and_eq_true, Option.isNone_iff_eq_none]

theorem endsBinary_iff : endsBinary k = true ↔ endsOperand k = true ∧ operator? k = none := by
  simp only [endsBinary, Bool.and_eq_true, Option.isNone_iff_eq_none]

theorem endsConditional_iff :
    endsConditional k = true ↔ endsBinary k = true ∧ k ≠ .mark .question := by
  simp only [endsConditional, Bool.and_eq_true, decide_eq_true_eq]

theorem endsExpression_iff :
    endsExpression k = true ↔ endsConditional k = true ∧ assignOp? k = none := by
  simp only [endsExpression, Bool.and_eq_true, Option.isNone_iff_eq_none]

/-- A phrase that starts with this token has no operator before it. -/
def opensOperand (k : Kind) : Bool :=
  (unaryOp? k).isNone && (updateOp? k).isNone && k ≠ .keyword .newWord

theorem opensOperand_iff : opensOperand k = true ↔
    unaryOp? k = none ∧ updateOp? k = none ∧ k ≠ .keyword .newWord := by
  simp only [opensOperand, Bool.and_eq_true, Option.isNone_iff_eq_none, decide_eq_true_eq,
    and_assoc]

/-! ## From primary expressions to whole expressions -/

section

variable {level : Level} {words words' words'' : List Word} {fits fits' fits'' : Prop}
  {P P' P'' Q : Expr → Prop} {phrase : ι → List Word} {R : ι → Stmt → Prop} {fitsItem : ι → Prop}
  {items : List ι}

theorem suffixes_done {e : Expr} (holds : Q e) :
    Gives (suffixes level start e) [] endsCall True Q := by
  unfold suffixes
  refine .rounds_done (.decline (fun k ended => (endsCall_iff.1 ended).2.1) ?_)
  refine .decline (fun k ended => (endsCall_iff.1 ended).2.2.1) ?_
  refine .decline (fun k ended => (endsCall_iff.1 ended).2.2.2) ?_
  exact .pure holds

theorem callExpression_of_primary (opens : Opens words opensOperand)
    (h : Gives (primary level) words endsPrimary fits Q) :
    Gives (callExpression level) words endsCall fits Q := by
  unfold callExpression
  refine .start fun t => .decline (opens.first fun k plain => (opensOperand_iff.1 plain).2.2) ?_
  exact h.bind_last (fun k ended => (endsCall_iff.1 ended).1) fun e holds => suffixes_done holds

theorem operand_of_call (opens : Opens words opensOperand)
    (h : Gives (callExpression level) words endsCall fits Q) :
    Gives (operand level) words endsOperand fits Q := by
  unfold operand
  refine .current (opens.first fun k plain => opensOperand_iff.1 plain) fun t first => ?_
  obtain ⟨⟨notUnary, notUpdate, -⟩, -⟩ := first
  rw [notUnary, notUpdate]
  unfold postfixExpression
  refine .start fun t => ?_
  refine h.bind_last (fun k ended => (endsOperand_iff.1 ended).1) fun e holds => ?_
  refine .current (.nil fun k ended => (endsOperand_iff.1 ended).2) fun t next => ?_
  rw [next.1, next.2]
  exact .pure holds

theorem binary_of_operand {least : Nat} (h : Gives level.operand words endsOperand fits Q) :
    Gives (binary level least) words endsBinary fits Q := by
  rw [binary]
  refine .start fun t => ?_
  refine h.bind_last (fun k ended => (endsBinary_iff.1 ended).1) fun e holds => ?_
  refine .rounds_done (.current (.nil fun k ended => (endsBinary_iff.1 ended).2) fun t next => ?_)
  rw [next.1]
  exact .pure holds

theorem conditional_of_binary (h : Gives (binary level 0) words endsBinary fits Q) :
    Gives (conditional level) words endsConditional fits Q := by
  unfold conditional
  refine .start fun t => ?_
  refine h.bind_last (fun k ended => (endsConditional_iff.1 ended).1) fun e holds => ?_
  exact .decline (.nil fun k ended => (endsConditional_iff.1 ended).2) (.pure holds)

theorem expression_of_conditional (h : Gives (conditional level) words endsExpression fits Q) :
    Gives (expression level) words endsExpression fits Q := by
  unfold expression
  refine .start fun t => h.bind_last (fun _ => id) fun e holds => ?_
  refine .current (.nil fun k ended => (endsExpression_iff.1 ended).2) fun t next => ?_
  rw [next.1]
  exact .pure holds

theorem expression_of_binary (h : Gives (binary level 0) words endsBinary fits Q) :
    Gives (expression level) words endsExpression fits Q :=
  expression_of_conditional ((conditional_of_binary h).of_ends fun _ ended =>
    (endsExpression_iff.1 ended).1)

/-! ## Operators -/

theorem unaryOp?_word (op : UnaryOp) : unaryOp? op.word.kind = some op := by
  cases op <;> rfl

theorem operator?_mark (op : Operator) : operator? (.mark op.mark) = some op := by
  cases op with
  | binary op => cases op <;> rfl
  | logical op => cases op <;> rfl

theorem endsOperand_operator (op : Operator) : endsOperand (.mark op.mark) = true := by
  cases op with
  | binary op => cases op <;> decide
  | logical op => cases op <;> decide

theorem assignOp?_mark (op : AssignOp) : assignOp? (.mark op.mark) = some op := by
  cases op <;> rfl

theorem endsConditional_assignOp (op : AssignOp) : endsConditional (.mark op.mark) = true := by
  cases op <;> decide

theorem operand_of_unary {op : UnaryOp} (h : Gives level.operand words endsOperand fits P)
    (build : ∀ a span, P a → Q (.unary op a span)) :
    Gives (operand level) (op.word :: words) endsOperand fits Q := by
  unfold operand
  refine .current (K := (· = op.word.kind)) (.cons rfl) fun t first => ?_
  rw [first.1, unaryOp?_word]
  refine .advance (h.bind_last (fun _ => id) fun a holds => ?_)
  exact .spanFrom fun span => .pure (build a span holds)

theorem binary_of_join {op : Operator} (left : Gives level.operand words endsOperand fits P)
    (right : Gives level.operand words' endsOperand fits' P')
    (build : ∀ a b span, P a → P' b → Q (join op a b span)) :
    Gives (binary level 0) (words ++ .mark op.mark :: words') endsBinary (fits ∧ fits') Q := by
  rw [binary]
  refine .start fun t => left.bind (.cons (endsOperand_operator op)) fun a holds => ?_
  -- one round joins the operands, and the next one finds no operator
  refine (Gives.rounds_more (P := Q) endsBinary (by simp) ?_ (.nil fun _ => id)
    fun e joined => ?_).congr (List.append_nil _).symm (iff_of_eq (and_true fits').symm)
  · refine .current (K := (· = .mark op.mark)) (.cons rfl) fun t here => ?_
    rw [here.1, operator?_mark]
    refine .advance ((binary_of_operand right).bind_last (fun _ => id) fun b holds' => ?_)
    exact .spanFrom fun span => .pure (build a b span holds holds')
  · refine .rounds_done (.current (.nil fun k ended => (endsBinary_iff.1 ended).2) fun t next => ?_)
    rw [next.1]
    exact .pure joined

theorem conditional_of_branches (test : Gives (binary level 0) words endsBinary fits P)
    (consequent : Gives level.expression words' endsExpression fits' P')
    (alternate : Gives level.expression words'' endsExpression fits'' P'')
    (build : ∀ a b c span, P a → P' b → P'' c → Q (.conditional a b c span)) :
    Gives (conditional level)
      (words ++ .mark .question :: (words' ++ .mark .colon :: words'')) endsExpression
      (fits ∧ fits' ∧ fits'') Q := by
  unfold conditional
  refine .start fun t => test.bind (.cons (by decide)) fun a first => ?_
  refine .accept (w := .mark .question) (consequent.bind (.cons (by decide)) fun b second => ?_)
  refine .expect (w := .mark .colon) (alternate.bind_last (fun _ => id) fun c third => ?_)
  exact .spanFrom fun span => .pure (build a b c span first second third)

theorem expression_of_assignment {op : AssignOp}
    (target : Gives (conditional level) [.name x] endsConditional fits fun e =>
      ∃ id : Identifier, e = .identifier id ∧ id.name = x.text)
    (value : Gives level.expression words endsExpression fits' P)
    (build : ∀ (id : Identifier) a span, id.name = x.text → P a →
      Q (.assignment op (.identifier id) a span)) :
    Gives (expression level) (.name x :: .mark op.mark :: words) endsExpression
      (fits ∧ fits') Q := by
  unfold expression
  refine .start fun t => target.bind (.cons (endsConditional_assignOp op)) ?_
  rintro e ⟨id, rfl, named⟩
  refine .current (K := (· = .mark op.mark)) (.cons rfl) fun t here => ?_
  rw [here.1, assignOp?_mark]
  refine .advance (value.bind_last (fun _ ended => ended) fun a holds => ?_)
  exact .spanFrom fun span => .pure (build id a span named holds)

/-! ## Calls -/

theorem callExpression_of_call {argWords : List Word} {R : List Expr → Prop}
    (opens : Opens words opensOperand) (callee : Gives (primary level) words endsPrimary fits P)
    (args : Gives (arguments level) argWords (fun _ => true) fits' R)
    (build : ∀ f as span, P f → R as → Q (.call f as span)) :
    Gives (callExpression level) (words ++ .mark .lParen :: argWords) endsCall
      (fits ∧ fits') Q := by
  unfold callExpression
  refine .start fun t => .decline ((opens.append _).first fun k plain =>
    (opensOperand_iff.1 plain).2.2) ?_
  refine callee.bind (.cons (by decide)) fun f holds => ?_
  unfold suffixes
  refine (Gives.rounds_more (P := Q) (fun _ => true) (by simp) ?_ (.nil fun _ _ => rfl)
    fun e called => suffixes_done called).congr (List.append_nil _).symm
    (iff_of_eq (and_true fits').symm)
  refine .accept (w := .mark .lParen) (args.bind_last (fun _ _ => rfl) fun as all => ?_)
  exact .spanFrom fun span => .pure (build f as span holds all)

/-! ## Parentheses -/

/-- Parameters may start with these two tokens. -/
def opensParams : Kind → Kind → Bool
  | .mark .rParen, _ | .mark .dotDotDot, _ => true
  | .identifier _, .mark .comma | .identifier _, .mark .rParen => true
  | _, _ => false

theorem params_refuses {k' : Kind} {kinds : List Kind} (shows : s.Shows (k :: k' :: kinds))
    (other : opensParams k k' = false) : ∃ refusal, params s = .error refusal := by
  obtain ⟨⟨kind, span, newline⟩, rest, stop, left, left_eq⟩ := s
  obtain rfl : kind = k := shows.kind
  cases rest with
  | nil => cases shows
  | cons t ts =>
    obtain ⟨kind', span', newline'⟩ := t
    obtain rfl : kind' = k' := shows.advance.kind
    unfold params
    show ∃ refusal, Except.bind (rounds _ [] _) _ = Except.error refusal
    rw [rounds]
    cases kind with
    | identifier x =>
      -- the name is taken, and then there is no parenthesis
      cases kind' with
      | mark m => cases m <;> first | exact ⟨_, rfl⟩ | cases other
      | _ => exact ⟨_, rfl⟩
    | mark m => cases m <;> first | exact ⟨_, rfl⟩ | cases other
    | _ => exact ⟨_, rfl⟩

/-- Words that are not read as parameters when they stand in parentheses. -/
def IsInner (words : List Word) : Prop :=
  ∃ w w' rest, words = w :: w' :: rest ∧ opensParams w.kind w'.kind = false

theorem primary_lParen (here : s.current.kind = .mark .lParen) :
    primary level s = parenthesised level s := by
  obtain ⟨⟨kind, span, newline⟩, rest, stop, left, left_eq⟩ := s
  cases here
  rfl

theorem primary_of_inner {ends : Kind → Bool} (inner : IsInner words)
    (h : Gives level.expression words endsExpression fits Q) :
    Gives (primary level) (parens words) ends fits Q := by
  refine Gives.of_eq (bracketed level) ?_ fun s k kinds _ shows => ?_
  · exact .advance (h.bind_flat (.cons (by decide)) fun e holds =>
      .expect (w := .mark .rParen) (.pure holds))
  · rw [primary_lParen shows.kind]
    obtain ⟨w, w', rest, rfl, other⟩ := inner
    obtain ⟨refusal, refused⟩ := params_refuses shows.advance other
    apply parenthesised_of_not_isArrowAhead
    rw [isArrowAhead, refused]

/-! ## Blocks -/

/-- The token after a statement is no `else`. -/
def endsStatement (k : Kind) : Bool :=
  k ≠ .keyword .elseWord

/-- A statement may start with this token. -/
def opensStatement (k : Kind) : Bool :=
  k ≠ .mark .rBrace && k ≠ .eof && k ≠ .mark .semicolon && k ≠ .keyword .elseWord

theorem opensStatement_iff : opensStatement k = true ↔ k ≠ .mark .rBrace ∧ k ≠ .eof ∧
    k ≠ .mark .semicolon ∧ k ≠ .keyword .elseWord := by
  simp only [opensStatement, Bool.and_eq_true, decide_eq_true_eq, and_assoc]

section

variable (opens : ∀ x ∈ items, Opens (phrase x) opensStatement)
  (each : ∀ x ∈ items, Gives level.statement (phrase x) endsStatement (fitsItem x) (R x))

include opens each

theorem statements_of_all (isEnd : Kind → Bool)
    (apart : ∀ k, isEnd k = true → opensStatement k = false ∧ endsStatement k = true) :
    Gives (statements level isEnd) (items.flatMap phrase) isEnd (∀ x ∈ items, fitsItem x)
      (List.Forall₂ R items) := by
  unfold statements
  -- the state holds what was read for the items so far, the last one first
  refine Gives.bind_last (P := fun body : List Stmt => List.Forall₂ R items body.reverse)
    (Gives.rounds_all endsStatement fitsItem
      (J := fun (rest : List ι) (body : List Stmt) => ∃ before, items = before ++ rest ∧
        List.Forall₂ R before body.reverse) ?_ (fun k ended => (apart k ended).2) ?_ ?_
      ⟨[], rfl, .nil⟩) (fun _ => id) fun body all => .pure all
  · intro x member
    exact (opens x member).mono fun k first => decide_eq_true (opensStatement_iff.1 first).2.2.2
  · rintro body ⟨before, rfl, all⟩
    refine .current (.nil fun k ended => ended) fun t here => ?_
    rw [if_pos here.1]
    refine .pure ?_
    show List.Forall₂ R _ body.reverse
    simpa using all
  · rintro x xs body ⟨before, rfl, all⟩
    have first := opens x (by simp)
    refine .current (first.first fun k => id) fun t here => ?_
    have notEnd : ¬isEnd t.kind = true := by
      intro ended
      have := (apart _ ended).1
      rw [here.1] at this
      cases this
    rw [if_neg notEnd, if_neg (opensStatement_iff.1 here.1).2.1]
    refine .decline (first.first fun k plain => (opensStatement_iff.1 plain).2.2.1) ?_
    refine (each x (by simp)).bind_last (fun _ => id) fun a holds => ?_
    refine .pure ⟨before ++ [x], by simp, ?_⟩
    rw [List.reverse_cons]
    exact List.rel_append all (.cons holds .nil)

theorem block_of_all :
    Gives (block level) (braces (items.flatMap phrase)) (fun _ => true) (∀ x ∈ items, fitsItem x)
      fun b => List.Forall₂ R items b.body := by
  unfold block
  refine .start fun t => .expect (w := .mark .lBrace) ?_
  refine (statements_of_all opens each _ ?_).bind_flat (.cons rfl) fun body all => ?_
  · intro k ended
    obtain rfl : k = .mark .rBrace := of_decide_eq_true ended
    decide
  · exact .expect (w := .mark .rBrace) (.spanFrom fun span => .pure all)

end

/-! ## Parameters -/

theorem not_any_of_not_mem (same : read.reverse.map Param.unspanned = before.map param)
    (named : id.name = x.text) (new : x.text ∉ before.map (·.1.text)) :
    ¬(read.any (·.id.name = id.name)) = true := by
  intro found
  obtain ⟨p, member, equal⟩ := List.any_eq_true.1 found
  have earlier : p.unspanned ∈ before.map param := by
    rw [← same]
    exact List.mem_map_of_mem (List.mem_reverse.2 member)
  obtain ⟨y, earlier, eq⟩ := List.mem_map.1 earlier
  refine new (List.mem_map.2 ⟨y, earlier, ?_⟩)
  calc y.1.text = p.unspanned.id.name := by rw [← eq]; rfl
    _ = id.name := of_decide_eq_true equal
    _ = x.text := named

/-- Only the last parameter takes all that is left. -/
theorem not_isRest_of_more {x y : Name × Bool} (split : ps.all = before ++ x :: y :: ys) :
    x.2 = false := by
  have single {z : Name × Bool} (member : z ∈ ps.names.map (·, false)) : z.2 = false := by
    obtain ⟨_, -, rfl⟩ := List.mem_map.1 member
    rfl
  rw [Params.all] at split
  cases rest : ps.rest with
  | none =>
    rw [rest] at split
    simp only [Option.toList_none, List.map_nil, List.append_nil] at split
    exact single (by simp [split])
  | some r =>
    rw [rest, ← List.dropLast_append_getLast (List.cons_ne_nil y ys), ← List.cons_append,
      ← List.append_assoc] at split
    have inner := (List.append_inj' split (by simp)).1
    exact single (by simp [inner])

theorem not_mem_of_split {x : Name × Bool} (split : ps.all = before ++ x :: ys) :
    x.1.text ∉ before.map (·.1.text) := by
  have distinct : (ps.all.map (·.1.text)).Nodup := by
    simpa [Params.all, Function.comp_def] using ps.distinct
  rw [split, List.map_append, List.map_cons] at distinct
  intro member
  exact (List.nodup_append.1 distinct).2.2 _ member _ List.mem_cons_self rfl

theorem map_unspanned_cons {isRest : Bool}
    (same : read.reverse.map Param.unspanned = before.map param) (named : id.name = x.text) :
    (⟨id, isRest⟩ :: read : List Param).reverse.map Param.unspanned =
      (before ++ [(x, isRest)]).map param := by
  rw [List.reverse_cons, List.map_append, same, List.map_append]
  simp [Param.unspanned, Identifier.unspanned, param, Outline.identifier, named]

theorem params_of_all (ps : Params) :
    Gives params (ps.words ++ [.mark .rParen]) (fun _ => true) True
      (·.map Param.unspanned = ps.tree) := by
  suffices read : Gives params (ps.words ++ [.mark .rParen]) (fun _ => true)
      (∀ x ∈ ps.all, True) (·.map Param.unspanned = ps.tree) from read.congr rfl (by simp)
  unfold params
  -- the state holds the parameters so far, the last one first
  refine Gives.bind_flat (P := fun read : List Param => read.reverse.map Param.unspanned = ps.tree)
    (Gives.rounds_separated (· = .mark .rParen) (fun _ => True)
      (J := fun (rest : List (Name × Bool)) (read : List Param) => ∃ before,
        ps.all = before ++ rest ∧ read.reverse.map Param.unspanned = before.map param)
      ?_ ?_ ?_ ps.all ⟨[], rfl, rfl⟩) (.cons (by simp)) fun read all =>
        .expect (w := .mark .rParen) (.pure all)
  · rintro read ⟨before, split, same⟩
    refine .isAt (.nil fun k ended => by simpa using ended) (.pure ?_)
    show read.reverse.map Param.unspanned = ps.tree
    rw [same, Params.tree, split, List.append_nil]
  · rintro ⟨x, isRest⟩ read ⟨before, split, same⟩
    have new := not_mem_of_split split
    cases isRest with
    | true =>
      refine .isNotAt (.cons (by simp)) ?_
      refine .accept (w := .mark .dotDotDot) (.identifier fun id named => ?_)
      rw [if_neg (not_any_of_not_mem same named new)]
      refine .pure ((map_unspanned_cons same named).trans ?_)
      rw [Params.tree, split]
    | false =>
      refine .isNotAt (.cons (by simp)) ?_
      refine .decline (.cons (by simp)) (.identifier fun id named => ?_)
      rw [if_neg (not_any_of_not_mem same named new)]
      refine .decline (.nil fun k ended => ?_) (.pure ((map_unspanned_cons same named).trans ?_))
      · have here : k = .mark .rParen := by simpa using ended
        simp [here]
      · rw [Params.tree, split]
  · rintro ⟨x, isRest⟩ y ys read ⟨before, split, same⟩
    have new := not_mem_of_split split
    obtain rfl : isRest = false := not_isRest_of_more split
    refine .isNotAt (.cons (by simp)) ?_
    refine .decline (.cons (by simp)) (.identifier fun id named => ?_)
    rw [if_neg (not_any_of_not_mem same named new)]
    exact .accept (w := .mark .comma)
      (.pure ⟨before ++ [(x, false)], by simp [split], map_unspanned_cons same named⟩)

/-! ## Functions -/

theorem functionRest_of_body {id : Option Identifier}
    (body : Gives (block level) words (fun _ => true) fits (·.unspanned = b)) :
    Gives (functionRest level id start) (parens ps.words ++ words) (fun _ => true) fits
      (·.unspanned = ⟨id.map Identifier.unspanned, ps.tree, b, false, {}⟩) := by
  unfold functionRest
  refine .expect (w := .mark .lParen) (((params_of_all ps).bind (fun _ _ => rfl)
    fun read same => ?_).congr rfl (iff_of_eq (true_and fits).symm))
  refine body.bind_last (fun _ ended => ended) fun found holds => .spanFrom fun span => .pure ?_
  rw [Function.unspanned, same, holds]

theorem primary_of_function {name : Option Name}
    (body : Gives (block level) words (fun _ => true) fits (·.unspanned = b)) :
    Gives (primary level)
      (.keyword .functionWord :: (name.toList.map .name ++ (parens ps.words ++ words)))
      (fun _ => true) fits
      (·.unspanned = .function ⟨name.map Outline.identifier, ps.tree, b, false, {}⟩) := by
  have rest (start : Span) (id : Option Identifier)
      (named : id.map Identifier.unspanned = name.map Outline.identifier) :
      Gives (functionRest level id start >>= fun f => pure (Expr.function f))
        (parens ps.words ++ words) (fun _ => true) fits
        (·.unspanned = .function ⟨name.map Outline.identifier, ps.tree, b, false, {}⟩) := by
    refine (functionRest_of_body body).bind_last (fun _ ended => ended) fun f same => .pure ?_
    rw [Expr.unspanned, same, named]
  unfold primary
  refine .current (K := (· = .keyword .functionWord)) (.cons rfl) fun t here => ?_
  rw [here.1]
  refine .advance ?_
  cases name with
  | none =>
    refine .current (K := (· = .mark .lParen)) (.cons rfl) fun t' here' => ?_
    rw [here'.1]
    exact rest t.span none rfl
  | some x =>
    refine .current (K := (· = .identifier x.text)) (.cons rfl) fun t' here' => ?_
    rw [here'.1]
    refine .identifier fun id named => rest t.span (some id) ?_
    rw [Option.map_some, Option.map_some, Identifier.unspanned, named, Outline.identifier]

theorem arrowRest_of_body (same : read.map Param.unspanned = ps.tree)
    (body : Gives (block level) (.mark .lBrace :: words) (fun _ => true) fits (·.unspanned = b)) :
    Gives (arrowRest level read start) (.mark .arrow :: .mark .lBrace :: words) (fun _ => true) fits
      (·.unspanned = .function ⟨none, ps.tree, b, true, {}⟩) := by
  unfold arrowRest
  refine .expect (w := .mark .arrow) ?_
  refine .current (K := (· = .mark .lBrace)) (.cons rfl) fun t here => ?_
  rw [if_pos here.1]
  refine body.bind_last (fun _ => id) fun found holds => .spanFrom fun span => .pure ?_
  rw [Expr.unspanned, Function.unspanned, same, holds, Option.map_none]

theorem primary_of_arrow
    (body : Gives (block level) (.mark .lBrace :: words) (fun _ => true) fits (·.unspanned = b)) :
    Gives (primary level) (parens ps.words ++ .mark .arrow :: .mark .lBrace :: words)
      (fun _ => true) fits (·.unspanned = .function ⟨none, ps.tree, b, true, {}⟩) := by
  intro s k kinds ended shows
  rw [primary_lParen shows.kind]
  rw [parens, List.cons_append] at shows
  -- the parameters are read first, and then there is the arrow
  have later := advance_shows shows
  rw [List.map_append, List.append_assoc] at later
  obtain ⟨found, s', read, same, shows'⟩ := (params_of_all ps rfl later).exists_ok trivial
  rw [parenthesised_of_arrow read shows'.kind]
  exact arrowRest_of_body same body ended shows'

end

end Grammar

end SourceMachine
