import SourceMachine.Proofs.Program.Rounds
import SourceMachine.Proofs.Program.Runs

/-!
# Operators between operands

Operands that are single tokens, with operators between them, are read as one tree.  Among
all trees with these tokens in this order it is the only one that is grouped by precedence:
an operator on the left of another binds at least as tightly, and one on its right binds
more tightly (`OperatorTree.IsGrouped`).

The loop over the operators and the call with the next higher precedence share the work, so
they are treated together, by induction on the number of operators (`Groups`).  A call with a
least precedence takes operators as long as they have it, and stops at the first one that
has not; hence what the loop meets next binds at most as tightly as what it has just read.
-/

namespace SourceMachine

open Grammar Reader

variable {least : Nat} {s : Stream} {before chain : List (Sign × Atom)} {first atom : Atom}
  {start : Span} {sign : Sign} {t : OperatorTree}

/-! ## Tokens of a chain -/

/-- The expression that a token is by itself: a literal or a name. -/
def atom? (t : Token) : Option Expr :=
  match t.kind with
  | .number x => some (.literal (.number x) t.span)
  | .string text => some (.literal (.string text) t.span)
  | .keyword .trueWord => some (.literal (.boolean true) t.span)
  | .keyword .falseWord => some (.literal (.boolean false) t.span)
  | .keyword .nullWord => some (.literal .null t.span)
  | .template text => some (.template text t.span)
  | .keyword .thisWord => some (.this t.span)
  | .identifier name => some (.identifier ⟨name, t.span⟩)
  | _ => none

/-- An operand that is a single token. -/
structure Atom where
  token : Token
  expr : Expr
  reads : atom? token = some expr

/-- An operator between two operands, where it stands in a text. -/
structure Sign where
  token : Token
  op : Operator
  reads : operator? token.kind = some op

/-- The token goes on with the operand before it: it calls it, takes a member of it, counts
    it up or down, or makes it the parameter of an arrow function. -/
def Token.extendsOperand (t : Token) : Bool :=
  t.kind = .mark .lParen || t.kind = .mark .dot || t.kind = .mark .lBracket ||
    !t.newlineBefore && (t.kind = .mark .arrow || (updateOp? t.kind).isSome)

/-- The token goes on with the expression before it. -/
def Token.extendsExpression (t : Token) : Bool :=
  t.extendsOperand || (operator? t.kind).isSome || t.kind = .mark .question ||
    (assignOp? t.kind).isSome

theorem Sign.extendsOperand (sign : Sign) : sign.token.extendsOperand = false := by
  obtain ⟨⟨kind, span, newline⟩, op, reads⟩ := sign
  cases kind with
  | mark m => cases m <;> cases reads <;> cases newline <;> rfl
  | _ => cases reads

/-- The tokens of operators and of the operands after them. -/
def chainTokens (chain : List (Sign × Atom)) : List Token :=
  chain.flatMap fun (sign, atom) => [sign.token, atom.token]

/-- The last operand of a chain. -/
def lastAtom (first : Atom) (chain : List (Sign × Atom)) : Atom :=
  ((chain.map Prod.snd).getLast?).getD first

theorem lastAtom_append (first : Atom) (chain : List (Sign × Atom)) (sign : Sign) (atom : Atom)
    (more : List (Sign × Atom)) :
    lastAtom first (chain ++ (sign, atom) :: more) = lastAtom atom more := by
  simp [lastAtom, List.getLast?_append, List.getLast?_cons]

/-! ## Trees -/

/-- Operands joined by operators. -/
inductive OperatorTree where
  | leaf (atom : Atom)
  | node (sign : Sign) (left right : OperatorTree)

namespace OperatorTree

/-- The operands and operators of a tree from left to right. -/
def inOrder : OperatorTree → Atom × List (Sign × Atom)
  | .leaf atom => (atom, [])
  | .node sign left right =>
    (left.inOrder.1, left.inOrder.2 ++ (sign, right.inOrder.1) :: right.inOrder.2)

/-- The operator that joins the whole tree, if there is one, has at least this precedence. -/
def BindsAtLeast (least : Nat) : OperatorTree → Prop
  | .leaf _ => True
  | .node sign _ _ => least ≤ sign.op.precedence

/-- Left of an operator there is none of less precedence, and right of it none of less or
    the same. -/
def IsGrouped : OperatorTree → Prop
  | .leaf _ => True
  | .node sign left right =>
    left.IsGrouped ∧ right.IsGrouped ∧ left.BindsAtLeast sign.op.precedence ∧
      right.BindsAtLeast (sign.op.precedence + 1)

/-- The stretch of text from the first token of a chain through its last. -/
def chainSpan (chain : Atom × List (Sign × Atom)) : Span :=
  { chain.1.token.span with
    stop := max (lastAtom chain.1 chain.2).token.span.stop chain.1.token.span.start }

/-- The tree as an expression. -/
def expr : OperatorTree → Expr
  | .leaf atom => atom.expr
  | tree@(.node sign left right) =>
    match sign.op with
    | .binary op => .binary op left.expr right.expr (chainSpan tree.inOrder)
    | .logical op => .logical op left.expr right.expr (chainSpan tree.inOrder)

/-! ### Only one tree is grouped -/

/-- Every operator of a grouped tree has at least the precedence of the whole. -/
theorem precedence_of_mem (grouped : t.IsGrouped) (binds : t.BindsAtLeast least)
    (member : (sign, atom) ∈ t.inOrder.2) : least ≤ sign.op.precedence := by
  induction t generalizing least with
  | leaf => cases member
  | node root left right ihLeft ihRight =>
    obtain ⟨leftGrouped, rightGrouped, leftBinds, rightBinds⟩ := grouped
    rcases List.mem_append.1 member with inLeft | here
    · exact le_trans binds (ihLeft leftGrouped leftBinds inLeft)
    · rcases List.mem_cons.1 here with same | inRight
      · cases same
        exact binds
      · have := ihRight rightGrouped rightBinds inRight
        exact le_trans binds (by omega)

/-- The operator that joins a grouped tree is the last one of least precedence, so two
    grouped trees of one chain split it at the same place. -/
theorem split_eq {before' after after' : List (Sign × Atom)} {sign' : Sign} {atom' : Atom}
    (same : before ++ (sign, atom) :: after = before' ++ (sign', atom') :: after')
    (low : ∀ p ∈ before, sign.op.precedence ≤ p.1.op.precedence)
    (high : ∀ p ∈ after, sign.op.precedence < p.1.op.precedence)
    (low' : ∀ p ∈ before', sign'.op.precedence ≤ p.1.op.precedence)
    (high' : ∀ p ∈ after', sign'.op.precedence < p.1.op.precedence) :
    before = before' ∧ (sign, atom) = (sign', atom') ∧ after = after' := by
  rcases List.append_eq_append_iff.1 same with ⟨gap, rfl, rest⟩ | ⟨gap, rfl, rest⟩
  · cases gap with
    | nil =>
      obtain ⟨here, onwards⟩ := List.cons.inj rest
      exact ⟨(List.append_nil before).symm, here, onwards⟩
    | cons p gap =>
      -- the second root would stand right of the first one, and the first left of it
      obtain ⟨rfl, rfl⟩ := List.cons.inj rest
      have right : sign.op.precedence < sign'.op.precedence := high (sign', atom') (by simp)
      have left : sign'.op.precedence ≤ sign.op.precedence := low' (sign, atom) (by simp)
      omega
  · cases gap with
    | nil =>
      obtain ⟨here, onwards⟩ := List.cons.inj rest
      exact ⟨List.append_nil before', here.symm, onwards.symm⟩
    | cons p gap =>
      obtain ⟨rfl, rfl⟩ := List.cons.inj rest
      have right : sign'.op.precedence < sign.op.precedence := high' (sign, atom) (by simp)
      have left : sign.op.precedence ≤ sign'.op.precedence := low (sign', atom') (by simp)
      omega

theorem eq_of_inOrder_eq {u : OperatorTree} (tGrouped : t.IsGrouped) (uGrouped : u.IsGrouped)
    (same : t.inOrder = u.inOrder) : t = u := by
  induction t generalizing u with
  | leaf atom =>
    cases u with
    | leaf atom' => exact congrArg leaf (congrArg Prod.fst same)
    | node sign left right => simp [inOrder] at same
  | node sign left right ihLeft ihRight =>
    cases u with
    | leaf atom => simp [inOrder] at same
    | node sign' left' right' =>
      obtain ⟨first, chain⟩ := Prod.mk.inj same
      obtain ⟨lg, rg, lb, rb⟩ := tGrouped
      obtain ⟨lg', rg', lb', rb'⟩ := uGrouped
      obtain ⟨before, here, after⟩ := split_eq chain
        (fun p member => precedence_of_mem lg lb member)
        (fun p member => precedence_of_mem rg rb member)
        (fun p member => precedence_of_mem lg' lb' member)
        (fun p member => precedence_of_mem rg' rb' member)
      obtain ⟨rfl, atom⟩ := Prod.mk.inj here
      rw [ihLeft lg lg' (Prod.ext first before), ihRight rg rg' (Prod.ext atom after)]

end OperatorTree

/-! ## Streams -/

/-- The tokens of a stream, and the offset where the token before them ended. -/
structure Stream.Holds (s : Stream) (tokens : List Token) (stop : Nat) : Prop where
  tokens : s.current :: s.rest = tokens
  stop : s.previousStop = stop

namespace Stream.Holds

variable {s : Stream} {t u : Token} {tokens : List Token} {stop : Nat}

theorem current (holds : s.Holds (t :: tokens) stop) : s.current = t :=
  (List.cons.inj holds.tokens).1

theorem left (holds : s.Holds tokens stop) : s.left + 1 = tokens.length := by
  rw [s.left_eq, ← holds.tokens]
  rfl

theorem advance (holds : s.Holds (t :: u :: tokens) stop) :
    s.advance.Holds (u :: tokens) t.span.stop := by
  obtain ⟨current, rest, previousStop, left, left_eq⟩ := s
  obtain ⟨same, others⟩ := List.cons.inj holds.tokens
  cases same
  cases others
  exact ⟨rfl, rfl⟩

end Stream.Holds

/-! ## Operands -/

section

variable {level : Level} {s : Stream} {a : Atom} {next : Token} {tokens : List Token} {stop : Nat}

theorem extendsOperand_eq_false {t : Token} (ends : t.extendsOperand = false) :
    t.kind ≠ .mark .lParen ∧ t.kind ≠ .mark .dot ∧ t.kind ≠ .mark .lBracket ∧
      (t.newlineBefore = false → t.kind ≠ .mark .arrow ∧ updateOp? t.kind = none) := by
  simp only [Token.extendsOperand, Bool.or_eq_false_iff, Bool.and_eq_false_iff,
    decide_eq_false_iff_not, Bool.not_eq_false', Option.isSome_eq_false_iff,
    Option.isNone_iff_eq_none] at ends
  obtain ⟨⟨⟨paren, dot⟩, bracket⟩, line⟩ := ends
  refine ⟨paren, dot, bracket, fun none => ?_⟩
  rcases line with newline | others
  · rw [none] at newline
    cases newline
  · exact others

theorem extendsExpression_eq_false {t : Token} (ends : t.extendsExpression = false) :
    t.extendsOperand = false ∧ operator? t.kind = none ∧ t.kind ≠ .mark .question ∧
      assignOp? t.kind = none := by
  simp only [Token.extendsExpression, Bool.or_eq_false_iff, decide_eq_false_iff_not,
    Option.isSome_eq_false_iff, Option.isNone_iff_eq_none, and_assoc] at ends
  exact ends

theorem primary_of_atom (holds : s.Holds (a.token :: next :: tokens) stop)
    (ends : next.extendsOperand = false) : primary level s = .ok (a.expr, s.advance) := by
  have after := holds.advance.current
  obtain ⟨-, -, -, line⟩ := extendsOperand_eq_false ends
  obtain ⟨⟨kind, span, newline⟩, rest, previousStop, left, left_eq⟩ := s
  obtain ⟨token, expr, reads⟩ := a
  obtain rfl : _ = token := holds.current
  cases kind with
  | number | string | template =>
    cases reads
    rfl
  | keyword word =>
    cases word <;> cases reads <;> rfl
  | identifier name =>
    cases reads
    -- the name is no parameter of an arrow function
    have noArrow : ¬(decide (next.kind = .mark .arrow) && !next.newlineBefore) = true := by
      intro both
      simp only [Bool.and_eq_true, decide_eq_true_eq, Bool.not_eq_true'] at both
      exact (line both.2).1 both.1
    rw [← after] at noArrow
    exact congrFun (if_neg noArrow) _
  | mark | invalid | eof => cases reads

theorem suffixes_of_end {e : Expr} (ends : s.current.extendsOperand = false) :
    suffixes level start e s = .ok (e, s) := by
  obtain ⟨paren, dot, bracket, -⟩ := extendsOperand_eq_false ends
  have last : suffixRound level start e s = .ok (.done e, s) := by
    rw [suffixRound, bind_of_ok ((accept_apply _ _).trans (if_neg paren)), if_neg (by simp),
      bind_of_ok ((accept_apply _ _).trans (if_neg dot)), if_neg (by simp),
      bind_of_ok ((accept_apply _ _).trans (if_neg bracket)), if_neg (by simp)]
    rfl
  rw [Grammar.suffixes, rounds, last]

/-- A token that is an expression by itself has no operator before it. -/
theorem atom_opens (a : Atom) : unaryOp? a.token.kind = none ∧ updateOp? a.token.kind = none ∧
    a.token.kind ≠ .keyword .newWord := by
  obtain ⟨⟨kind, span, newline⟩, expr, reads⟩ := a
  cases kind with
  | keyword word => cases word <;> cases reads <;> exact ⟨rfl, rfl, by simp⟩
  | number | string | template | identifier => exact ⟨rfl, rfl, by simp⟩
  | mark | invalid | eof => cases reads

theorem operand_of_atom (holds : s.Holds (a.token :: next :: tokens) stop)
    (ends : next.extendsOperand = false) : operand level s = .ok (a.expr, s.advance) := by
  have here := holds.current
  have after := holds.advance.current
  obtain ⟨notUnary, notUpdate, notNew⟩ := atom_opens a
  rw [← here] at notUnary notUpdate notNew
  have call : callExpression level s = .ok (a.expr, s.advance) := by
    rw [callExpression, bind_of_ok (rfl : current s = _),
      bind_of_ok ((accept_apply _ _).trans (if_neg notNew)), if_neg (by simp),
      bind_of_ok (primary_of_atom holds ends), suffixes_of_end (after.symm ▸ ends)]
  rw [operand, bind_of_ok (rfl : current s = _), notUnary, notUpdate]
  show postfixExpression level s = _
  rw [postfixExpression, bind_of_ok (rfl : current s = _), bind_of_ok call,
    bind_of_ok (rfl : current s.advance = _), after]
  obtain ⟨-, -, -, line⟩ := extendsOperand_eq_false ends
  cases newline : next.newlineBefore with
  | true => rfl
  | false =>
    rw [(line newline).2]
    rfl

end

/-! ## Chains -/

/-- What reading a chain of operators after its first operand and after those `before` comes
    to: a grouped tree of all operators up to the first one of less than the least
    precedence, and the stream that starts there. -/
def ReadsGrouped (first : Atom) (before chain : List (Sign × Atom)) (least : Nat)
    (after : List Token) (result : Except Refusal (Expr × Stream)) : Prop :=
  ∃ (t : OperatorTree) (taken rest : List (Sign × Atom)) (s : Stream),
    chain = taken ++ rest ∧ t.inOrder = (first, before ++ taken) ∧ t.IsGrouped ∧
      t.BindsAtLeast least ∧ (∀ p ∈ rest.head?, p.1.op.precedence < least) ∧
      result = .ok (t.expr, s) ∧
      s.Holds (chainTokens rest ++ after) (lastAtom first (before ++ taken)).token.span.stop

/-- What was read of a chain may be moved to what was read before. -/
theorem ReadsGrouped.of_append {taken : List (Sign × Atom)} {after : List Token}
    {result : Except Refusal (Expr × Stream)}
    (reads : ReadsGrouped first (before ++ taken) chain least after result) :
    ReadsGrouped first before (taken ++ chain) least after result := by
  obtain ⟨t, taken', rest, s, rfl, order, grouped, binds, stops, read, holds⟩ := reads
  rw [List.append_assoc] at order holds
  exact ⟨t, taken ++ taken', rest, s, (List.append_assoc _ _ _).symm, order, grouped, binds, stops,
    read, holds⟩

/-- Reading with any least precedence groups the chain. -/
def Groups (level : Level) (after : List Token) (chain : List (Sign × Atom)) : Prop :=
  ∀ (least : Nat) (first : Atom) (s : Stream) (stop : Nat),
    s.Holds (first.token :: (chainTokens chain ++ after)) stop →
      ReadsGrouped first [] chain least after (binary level least s)

section

variable {level below : Level} {next : Token} {tokens : List Token}

/-- No operator follows, or one that does not bind tightly enough. -/
theorem joinRound_done {left : Expr}
    (less : ∀ op, operator? s.current.kind = some op → op.precedence < least) :
    joinRound level least start left s = .ok (.done left, s) := by
  rw [joinRound, bind_of_ok (rfl : current s = .ok (s.current, s))]
  cases here : operator? s.current.kind with
  | none => rfl
  | some op =>
    show (if least ≤ op.precedence then _ else _ : Reader (Round Expr Expr)) s = _
    rw [if_neg (Nat.not_le_of_lt (less op here))]
    rfl

/-- An operator that binds tightly enough follows, and then the operand on its right. -/
theorem joinRound_more {left right : Expr} {op : Operator} {s' : Stream}
    (here : operator? s.current.kind = some op) (enough : least ≤ op.precedence)
    (read : binary level (op.precedence + 1) s.advance = .ok (right, s')) :
    joinRound level least start left s =
      .ok (.more (join op left right { start with stop := max s'.previousStop start.start }),
        s') := by
  rw [joinRound, bind_of_ok (rfl : current s = .ok (s.current, s)), here]
  show (if least ≤ op.precedence then _ else _ : Reader (Round Expr Expr)) s = _
  rw [if_pos enough, bind_of_ok (rfl : advance s = .ok ((), s.advance)), bind_of_ok read]
  rfl

/-- The loop, when shorter chains are grouped.  The operator that it meets binds at most as
    tightly as the tree that it has read. -/
theorem joinRounds_reads (ends : next.extendsExpression = false)
    (shorter : ∀ chain' : List (Sign × Atom), chain'.length < chain.length →
      Groups level (next :: tokens) chain') {left : OperatorTree}
    (order : left.inOrder = (first, before)) (grouped : left.IsGrouped)
    (binds : left.BindsAtLeast least)
    (meets : ∀ p ∈ chain.head?, left.BindsAtLeast p.1.op.precedence)
    (holds : s.Holds (chainTokens chain ++ next :: tokens)
      (lastAtom first before).token.span.stop) :
    ReadsGrouped first before chain least (next :: tokens)
      (rounds (joinRound level least first.token.span) left.expr s) := by
  induction size : chain.length using Nat.strong_induction_on
    generalizing chain before left s with
  | _ n ih =>
    subst size
    -- where the loop ends, the tree so far is the result
    have stops (less : ∀ p ∈ chain.head?, p.1.op.precedence < least)
        (last : ∀ op, operator? s.current.kind = some op → op.precedence < least) :
        ReadsGrouped first before chain least (next :: tokens)
          (rounds (joinRound level least first.token.span) left.expr s) := by
      refine ⟨left, [], chain, s, rfl, ?_, grouped, binds, less,
        rounds_of_done (joinRound_done last), ?_⟩
      · rw [order, List.append_nil]
      · rwa [List.append_nil]
    cases chain with
    | nil =>
      refine stops (by simp) fun op here => ?_
      rw [Stream.Holds.current holds, (extendsExpression_eq_false ends).2.1] at here
      cases here
    | cons link chain =>
      obtain ⟨sign, atom⟩ := link
      have here : operator? s.current.kind = some sign.op := by
        rw [Stream.Holds.current holds, sign.reads]
      by_cases enough : least ≤ sign.op.precedence
      · have onwards : s.advance.Holds (atom.token :: (chainTokens chain ++ next :: tokens))
            sign.token.span.stop := Stream.Holds.advance holds
        obtain ⟨right, taken, rest, s₁, rfl, rightOrder, rightGrouped, rightBinds, rightStops,
          read, holds₁⟩ := shorter chain (Nat.lt_succ_self _) (sign.op.precedence + 1) atom _ _
            onwards
        have last := lastAtom_append first before sign atom taken
        rw [List.nil_append] at rightOrder holds₁
        rw [← last] at holds₁
        have joinedOrder : (OperatorTree.node sign left right).inOrder =
            (first, before ++ (sign, atom) :: taken) := by
          rw [OperatorTree.inOrder, order, rightOrder]
        have more : joinRound level least first.token.span left.expr s =
            .ok (.more (OperatorTree.node sign left right).expr, s₁) := by
          rw [joinRound_more here enough read, OperatorTree.expr, joinedOrder,
            OperatorTree.chainSpan, holds₁.stop]
          rfl
        have fewer : s₁.left < s.left := by
          have total := holds.left
          have total₁ := holds₁.left
          simp only [chainTokens, List.flatMap_cons, List.flatMap_append, List.length_append,
            List.length_cons] at total total₁
          omega
        have shorterRest : rest.length < ((sign, atom) :: (taken ++ rest)).length := by
          rw [List.length_cons, List.length_append]
          omega
        rw [rounds_of_more more fewer]
        have reads := ih rest.length shorterRest
          (fun chain' short => shorter chain' (short.trans shorterRest)) joinedOrder
          ⟨grouped, rightGrouped, meets _ rfl, rightBinds⟩ enough
          (fun p member => Nat.lt_succ_iff.1 (rightStops p member)) holds₁ rfl
        exact reads.of_append
      · refine stops (fun p member => ?_) fun op same => ?_
        · cases member
          exact Nat.lt_of_not_le enough
        · cases here.symm.trans same
          exact Nat.lt_of_not_le enough

/-- A chain is grouped if the operands of the level are those of another level. -/
theorem groups_chain (ends : next.extendsExpression = false) (same : level.operand = operand below)
    (chain : List (Sign × Atom)) : Groups level (next :: tokens) chain := by
  induction size : chain.length using Nat.strong_induction_on generalizing chain with
  | _ n ih =>
    subst size
    intro least first s stop holds
    -- the operand is followed by an operator, or by what ends the chain
    obtain ⟨t, ts, follows, ended⟩ :
        ∃ t ts, chainTokens chain ++ next :: tokens = t :: ts ∧ t.extendsOperand = false := by
      cases chain with
      | nil => exact ⟨next, tokens, rfl, (extendsExpression_eq_false ends).1⟩
      | cons link chain => exact ⟨link.1.token, _, rfl, link.1.extendsOperand⟩
    rw [follows] at holds
    have read : level.operand s = .ok (first.expr, s.advance) := by
      rw [same, operand_of_atom holds ended]
    have onwards := holds.advance
    rw [← follows] at onwards
    rw [binary_eq, bind_of_ok (rfl : current s = .ok (s.current, s)), bind_of_ok read,
      holds.current]
    have order : (OperatorTree.leaf first).inOrder = (first, []) := rfl
    exact joinRounds_reads ends (fun chain' short => ih _ short chain' rfl) order trivial trivial
      (fun _ _ => trivial) onwards

/-- The chain as a whole expression. -/
theorem expression_of_chain (level below : Level) (ends : next.extendsExpression = false)
    (same : level.operand = operand below) {stop : Nat}
    (holds : s.Holds (first.token :: (chainTokens chain ++ next :: tokens)) stop) :
    ∃ (t : OperatorTree) (s' : Stream), t.inOrder = (first, chain) ∧ t.IsGrouped ∧
      expression level s = .ok (t.expr, s') ∧
      s'.Holds (next :: tokens) (lastAtom first chain).token.span.stop := by
  obtain ⟨t, taken, rest, s', rfl, order, grouped, -, stops, read, onwards⟩ :=
    groups_chain ends same chain 0 first s stop holds
  -- every operator has some precedence, so none is left
  obtain rfl : rest = [] := by
    cases rest with
    | nil => rfl
    | cons link rest => exact absurd (stops link rfl) (Nat.not_lt_zero _)
  rw [List.nil_append] at order onwards
  rw [List.append_nil]
  refine ⟨t, s', order, grouped, ?_, onwards⟩
  have here : s'.current = next := Stream.Holds.current onwards
  obtain ⟨-, -, notQuestion, notAssigned⟩ := extendsExpression_eq_false ends
  rw [← here] at notQuestion notAssigned
  have conditional : conditional level s = .ok (t.expr, s') := by
    rw [Grammar.conditional, bind_of_ok (rfl : current s = .ok (s.current, s)), bind_of_ok read,
      bind_of_ok ((accept_apply _ _).trans (if_neg notQuestion)), if_neg (by simp)]
    rfl
  rw [expression, bind_of_ok (rfl : current s = .ok (s.current, s)), bind_of_ok conditional,
    bind_of_ok (rfl : current s' = .ok (s'.current, s')), notAssigned]
  rfl

end

/-- **Operators are grouped by precedence.**  Single tokens with operators between them, and
    then a token that goes on with no expression, are read as an expression by taking just
    these tokens.  What comes out is the tree with these tokens in this order that is grouped
    by precedence, and there is exactly one.  This takes two levels of nesting, one for the
    expression and one for its operands; where fewer are left, the first token is refused. -/
theorem operators_are_grouped (depth : Nat) (first : Atom) (chain : List (Sign × Atom))
    (next : Token) (tokens : List Token) (s : Stream)
    (shows : s.current :: s.rest = first.token :: (chainTokens chain ++ next :: tokens))
    (ends : next.extendsExpression = false) :
    (∃! t : OperatorTree, t.inOrder = (first, chain) ∧ t.IsGrouped) ∧
      (∀ t : OperatorTree, t.inOrder = (first, chain) → t.IsGrouped →
        2 ≤ depth → ∃ s', (Level.ofDepth depth).expression s = .ok (t.expr, s') ∧
          s'.current = next ∧ s'.rest = tokens ∧
          s'.previousStop = (lastAtom first chain).token.span.stop) ∧
      (depth < 2 → (Level.ofDepth depth).expression s =
        .error ⟨.tooDeep, first.token.span.line, first.token.span.column⟩) := by
  have holds : s.Holds (first.token :: (chainTokens chain ++ next :: tokens)) s.previousStop :=
    ⟨shows, rfl⟩
  have read (n : Nat) :=
    expression_of_chain (Level.ofDepth (n + 1)) (Level.ofDepth n) ends rfl holds
  refine ⟨?_, ?_, ?_⟩
  · obtain ⟨t, -, order, grouped, -⟩ := read 0
    refine ⟨t, ⟨order, grouped⟩, ?_⟩
    rintro u ⟨order', grouped'⟩
    exact OperatorTree.eq_of_inOrder_eq grouped' grouped (order'.trans order.symm)
  · intro t order grouped deep
    obtain ⟨n, rfl⟩ : ∃ n, depth = n + 2 := ⟨depth - 2, by omega⟩
    obtain ⟨u, s', order', grouped', accepted, onwards⟩ := read n
    obtain rfl := OperatorTree.eq_of_inOrder_eq grouped' grouped (order'.trans order.symm)
    obtain ⟨here, rest⟩ := List.cons.inj onwards.tokens
    exact ⟨s', accepted, here, rest, onwards.stop⟩
  · intro shallow
    rw [← holds.current]
    match depth, shallow with
    | 0, _ => rfl
    | 1, _ =>
      have refused : binary (Level.ofDepth 0) 0 s =
          .error ⟨.tooDeep, s.current.span.line, s.current.span.column⟩ := by
        rw [binary_eq]
        rfl
      show expression (Level.ofDepth 0) s = _
      rw [expression, bind_of_ok (rfl : current s = .ok (s.current, s)), bind_of_error]
      rw [conditional, bind_of_ok (rfl : current s = .ok (s.current, s)), bind_of_error refused]

theorem operators_are_grouped_of_four :
    let token (kind : Kind) (offset : Nat) : Token :=
      ⟨kind, ⟨offset, offset + 1, 1, .ofNat (offset + 1)⟩, false⟩
    let atom (name : String) (offset : Nat) : Atom :=
      ⟨token (.identifier name) offset, .identifier ⟨name, (token (.identifier name) offset).span⟩,
        rfl⟩
    let less : Sign := ⟨token (.mark .lt) 1, .binary .lt, rfl⟩
    let minus (offset : Nat) : Sign := ⟨token (.mark .minus) offset, .binary .sub, rfl⟩
    let times : Sign := ⟨token (.mark .star) 7, .binary .mul, rfl⟩
    let chain := [(less, atom "b" 2), (minus 3, atom "c" 4), (minus 5, atom "d" 6),
      (times, atom "e" 8)]
    let next := token (.mark .semicolon) 9
    let s := Stream.ofTokens (atom "a" 0).token (chainTokens chain ++ [next])
    let tree : OperatorTree := .node less (.leaf (atom "a" 0))
      (.node (minus 5) (.node (minus 3) (.leaf (atom "b" 2)) (.leaf (atom "c" 4)))
        (.node times (.leaf (atom "d" 6)) (.leaf (atom "e" 8))))
    next.extendsExpression = false ∧ tree.inOrder = (atom "a" 0, chain) ∧ tree.IsGrouped ∧
      ∃ s', (Level.ofDepth maxNesting).expression s = .ok (tree.expr, s') ∧ s'.current = next := by
  intro token atom less minus times chain next s tree
  have grouped : tree.IsGrouped := by
    simp [tree, OperatorTree.IsGrouped, OperatorTree.BindsAtLeast, less, minus, times,
      Operator.precedence]
  have ends : next.extendsExpression = false := rfl
  obtain ⟨-, read, -⟩ := operators_are_grouped maxNesting (atom "a" 0) chain next [] s rfl ends
  obtain ⟨s', accepted, here, -⟩ := read tree rfl grouped (by decide)
  exact ⟨ends, rfl, grouped, s', accepted, here⟩

end SourceMachine
