import SourceMachine.Proofs.Program.Descent

/-!
# The routines of the grammar

Every phrase of the grammar as a routine.  What a routine reads is what the grammar reads
(the theorems `read_…`), so its runs follow the grammar.  To each loop belongs the proof that
its rounds take tokens.
-/

namespace SourceMachine

open Reader

namespace Descent.Routine

open Grammar (operator? unaryOp? updateOp? assignOp? target? join)

variable {α : Type} {T : List Token} {s : Stream} {level : Level} {node : α → Node}
  {item : Routine α}

/-! ## Blocks and functions -/

def statementsRound (isEnd : Kind → Bool) (body : List Stmt) :
    Routine (Round (List Stmt) (List Stmt)) := do
  let t ← current
  if isEnd t.kind then return .done body
  if t.kind = .eof then unexpected .closingBrace
  if ← accept (.mark .semicolon) then return .more body
  return .more ((← statement) :: body)

theorem read_statementsRound (isEnd : Kind → Bool) (body : List Stmt) :
    (statementsRound isEnd body).read level = Grammar.statementsRound level isEnd body := by
  simp [statementsRound, Grammar.statementsRound]

theorem takesTokens_statementsRound (isEnd : Kind → Bool) :
    TakesTokens (statementsRound isEnd) := by
  intro T level lv body s tiled
  rw [read_statementsRound]
  exact takesToken_of_adds (Grammar.statementsRound_adds lv isEnd tiled body)

def statements (isEnd : Kind → Bool) : Routine (List Stmt) := called .statements do
  let body ← loop .statements (statementsRound isEnd) (takesTokens_statementsRound isEnd) []
  return body.reverse

@[simp] theorem read_statements (isEnd : Kind → Bool) :
    (statements isEnd).read level = Grammar.statements level isEnd := by
  rw [Grammar.statements]
  simp [statements, read_statementsRound]

def block : Routine Block := called .block do
  let start := (← current).span
  expect (.mark .lBrace)
  let body ← statements (· = .mark .rBrace)
  expect (.mark .rBrace)
  return ⟨body, ← spanFrom start⟩

@[simp] theorem read_block : block.read level = Grammar.block level := by
  simp [block, Grammar.block]

def paramsRound (params : List Param) : Routine (Round (List Param) (List Param)) := do
  if ← isAt (.mark .rParen) then return .done params
  let isRest ← accept (.mark .dotDotDot)
  let id ← identifier
  if params.any (·.id.name = id.name) then
    throw ⟨.duplicateParam id.name, id.span.line, id.span.column⟩
  let params := ⟨id, isRest⟩ :: params
  if isRest then return .done params
  if ← accept (.mark .comma) then return .more params else return .done params

theorem read_paramsRound (params : List Param) :
    (paramsRound params).read level = Grammar.paramsRound params := by
  simp [paramsRound, Grammar.paramsRound]

theorem takesTokens_paramsRound : TakesTokens paramsRound := by
  intro T level _ params s tiled
  rw [read_paramsRound]
  exact takesToken_of_adds (Grammar.paramsRound_adds tiled params)

def params : Routine (List Param) := called .params do
  let params ← loop .params paramsRound takesTokens_paramsRound []
  expect (.mark .rParen)
  return params.reverse

@[simp] theorem read_params : params.read level = Grammar.params := by
  rw [Grammar.params]
  simp [params, read_paramsRound]

def functionRest (id : Option Identifier) (start : Span) : Routine Function :=
  called .functionRest do
    expect (.mark .lParen)
    let params ← params
    let body ← block
    return ⟨id, params, body, false, ← spanFrom start⟩

@[simp] theorem read_functionRest (id : Option Identifier) (start : Span) :
    (functionRest id start).read level = Grammar.functionRest level id start := by
  simp [functionRest, Grammar.functionRest]

def arrowRest (params : List Param) (start : Span) : Routine Expr := called .arrowRest do
  expect (.mark .arrow)
  let bodyStart ← current
  let body ←
    if bodyStart.kind = .mark .lBrace then block
    else do
      let result ← expression
      let span ← spanFrom bodyStart.span
      pure ⟨[.returns (some result) span], span⟩
  return .function ⟨none, params, body, true, ← spanFrom start⟩

@[simp] theorem read_arrowRest (params : List Param) (start : Span) :
    (arrowRest params start).read level = Grammar.arrowRest level params start := by
  simp [arrowRest, Grammar.arrowRest]

/-! ## Expressions -/

/-- The parameters of an arrow function, up to its arrow. -/
def arrowHead : Routine (List Param) := do
  advance
  let params ← params
  unless ← isAt (.mark .arrow) do unexpected (.kind (.mark .arrow))
  return params

/-- What is in parentheses is read as parameters, and if no arrow follows, the parentheses are
    read again. -/
def parenthesised : Routine Expr := called .parenthesised do
  let start := (← current).span
  match ← attempt arrowHead with
  | some params => arrowRest params start
  | none =>
    advance
    let inner ← expression
    expect (.mark .rParen)
    return inner

theorem read_arrowHead : arrowHead.read level = (do
      Reader.advance
      let params ← Grammar.params
      unless ← Reader.isAt (.mark .arrow) do Reader.unexpected (.kind (.mark .arrow))
      return params) := by
  simp [arrowHead]

theorem read_arrowHead_of_arrow {ps : List Param} {s' : Stream}
    (read : Grammar.params s.advance = .ok (ps, s')) (arrow : s'.current.kind = .mark .arrow) :
    arrowHead.read level s = .ok (ps, s') := by
  rw [read_arrowHead, Reader.bind_of_ok (rfl : Reader.advance s = .ok ((), s.advance)),
    Reader.bind_of_ok read, Reader.bind_of_ok (rfl : Reader.isAt _ s' = .ok (_, s'))]
  exact congrFun (if_pos (decide_eq_true arrow)) s'

theorem exists_read_arrowHead_error (failed : Grammar.isArrowAhead s = false) :
    ∃ refusal, arrowHead.read level s = .error refusal := by
  rw [read_arrowHead, Reader.bind_of_ok (rfl : Reader.advance s = .ok ((), s.advance))]
  rw [Grammar.isArrowAhead] at failed
  cases read : Grammar.params s.advance with
  | error refusal => exact ⟨refusal, Reader.bind_of_error read⟩
  | ok result =>
    rw [read] at failed
    rw [Reader.bind_of_ok read, Reader.bind_of_ok (rfl : Reader.isAt _ _ = .ok (_, _))]
    exact ⟨_, congrFun (if_neg (by simpa using failed)) result.2⟩

theorem read_parenthesised (paren : s.current.kind = .mark .lParen) :
    parenthesised.read level s = Grammar.parenthesised level s := by
  rw [parenthesised, read_called, read_bind, read_current,
    Reader.bind_of_ok (rfl : Reader.current s = .ok (s.current, s)), read_bind]
  by_cases ahead : Grammar.isArrowAhead s = true
  · unfold Grammar.isArrowAhead at ahead
    split at ahead
    · next ps s' read =>
      have arrow := of_decide_eq_true ahead
      rw [Reader.bind_of_ok (read_attempt_of_ok paren (read_arrowHead_of_arrow read arrow)),
        Grammar.parenthesised_of_arrow read arrow, read_arrowRest]
    · cases ahead
  · have failed := Bool.eq_false_iff.2 ahead
    obtain ⟨refusal, refused⟩ := exists_read_arrowHead_error failed
    rw [Reader.bind_of_ok (read_attempt_of_error paren refused),
      Grammar.parenthesised_of_not_isArrowAhead failed]
    simp [Grammar.bracketed]

def commaRound (close : Mark) (item : Routine α) (items : List α) :
    Routine (Round (List α) (List α)) := do
  if ← isAt (.mark close) then return .done items
  let items := (← item) :: items
  if ← accept (.mark .comma) then return .more items else return .done items

theorem read_commaRound (close : Mark) (item : Routine α) (items : List α) :
    (commaRound close item items).read level =
      Reader.commaRound close (item.read level) items := by
  simp [commaRound, Reader.commaRound]

/-- What the routine reads is placed. -/
def Places (x : Routine α) (node : α → Node) : Prop :=
  ∀ ⦃T level⦄, level.Places T → Reader.Places T (x.read level) fun a => [node a]

theorem places_expression : expression.Places .expression :=
  fun _ _ lv => lv.expression

theorem takesTokens_commaRound (close : Mark) (places : item.Places node) :
    TakesTokens (commaRound close item) := by
  intro T level lv items s tiled
  rw [read_commaRound]
  exact takesToken_of_adds (Grammar.commaRound_adds (places lv) tiled items)

/-- Items between commas, with the name of the loop. -/
def commaList (label : Label) (close : Mark) {item : Routine α} {node : α → Node}
    (places : item.Places node) : Routine (List α) := do
  let items ← loop label (commaRound close item) (takesTokens_commaRound close places) []
  expect (.mark close)
  return items.reverse

@[simp] theorem read_commaList (label : Label) (close : Mark) (places : item.Places node) :
    (commaList label close places).read level = Reader.commaList close (item.read level) := by
  rw [Reader.commaList]
  simp [commaList, read_commaRound]

def propertyKey : Routine String := do
  match (← current).kind with
  | .string text =>
    advance
    return text
  | .number x =>
    advance
    return Number.Layout.key.write x
  | _ => return (← propertyName).name

@[simp] theorem read_propertyKey : propertyKey.read level = Grammar.propertyKey := by
  refine congrArg (Reader.current >>= ·) (funext fun t => ?_)
  obtain ⟨kind, _, _⟩ := t
  cases kind <;> simp

def property : Routine (String × Expr) := do
  let start := (← current).span
  let key ← propertyKey
  if ← accept (.mark .colon) then
    return (key, ← expression)
  else
    return (key, .identifier ⟨key, start⟩)

@[simp] theorem read_property : property.read level = Grammar.property level := by
  simp [property, Grammar.property]

theorem places_property : property.Places fun (_, value) => .expression value := by
  intro T level lv
  rw [read_property]
  exact Grammar.property_places lv

/-- A primary expression, apart from the notes of the call. -/
def primaryBody : Routine Expr := do
  let t ← current
  match t.kind with
  | .number x =>
    advance
    return .literal (.number x) t.span
  | .string text =>
    advance
    return .literal (.string text) t.span
  | .keyword .trueWord =>
    advance
    return .literal (.boolean true) t.span
  | .keyword .falseWord =>
    advance
    return .literal (.boolean false) t.span
  | .keyword .nullWord =>
    advance
    return .literal .null t.span
  | .template text =>
    advance
    return .template text t.span
  | .keyword .thisWord =>
    advance
    return .this t.span
  | .identifier name =>
    advance
    let next ← current
    if next.kind = .mark .arrow && !next.newlineBefore then
      arrowRest [⟨⟨name, t.span⟩, false⟩] t.span
    else
      return .identifier ⟨name, t.span⟩
  | .keyword .functionWord =>
    advance
    let id ← match (← current).kind with
      | .identifier _ => do pure (some (← identifier))
      | _ => pure none
    return .function (← functionRest id t.span)
  | .mark .lParen => parenthesised
  | .mark .lBracket => called .array do
    advance
    let elements ← commaList .array .rBracket places_expression
    return .array elements (← spanFrom t.span)
  | .mark .lBrace => called .object do
    advance
    let properties ← commaList .object .rBrace places_property
    return .object properties (← spanFrom t.span)
  | .invalid c => if c = '"' ∨ c = '\'' then refuse .unterminatedString else unexpected .expression
  | _ => unexpected .expression

theorem read_primaryBody : primaryBody.read level = Grammar.primary level := by
  funext s
  rw [primaryBody, Grammar.primary, read_bind, read_current,
    Reader.bind_of_ok (rfl : Reader.current s = .ok (s.current, s)),
    Reader.bind_of_ok (rfl : Reader.current s = .ok (s.current, s))]
  cases kind : s.current.kind with
  | keyword word =>
    cases word
    case functionWord =>
      refine congrFun (congrArg (Reader.advance >>= ·) (funext fun _ =>
        congrArg (Reader.current >>= ·) (funext fun t => ?_))) s
      obtain ⟨kind', _, _⟩ := t
      cases kind' <;> simp
    all_goals rfl
  | mark m =>
    cases m
    -- only at a parenthesis is the attempt made at all
    case lParen => exact read_parenthesised kind
    case lBracket => simp
    case lBrace => simp
    all_goals rfl
  | identifier name => simp
  | invalid c => simp
  | _ => rfl

theorem advances_primaryBody : primaryBody.Advances := by
  intro T level lv s tiled
  rw [read_primaryBody]
  exact (Grammar.primary_places lv tiled).mono fun e s' row => row.passes tiled

def primary : Routine Expr := called .primary (primaryBody.advancing .primary advances_primaryBody)

@[simp] theorem read_primary : primary.read level = Grammar.primary level :=
  read_primaryBody

def arguments : Routine (List Expr) :=
  called .arguments (commaList .arguments .rParen places_expression)

@[simp] theorem read_arguments : arguments.read level = Grammar.arguments level := by
  simp [arguments, Grammar.arguments]

def suffixRound (start : Span) (expr : Expr) : Routine (Round Expr Expr) := do
  if ← accept (.mark .lParen) then
    let args ← arguments
    return .more (.call expr args (← spanFrom start))
  else if ← accept (.mark .dot) then
    let name ← propertyName
    return .more (.member ⟨expr, .identifier name, ← spanFrom start⟩)
  else if ← accept (.mark .lBracket) then
    let key ← expression
    expect (.mark .rBracket)
    return .more (.member ⟨expr, .computed key, ← spanFrom start⟩)
  else
    return .done expr

theorem read_suffixRound (start : Span) (expr : Expr) :
    (suffixRound start expr).read level = Grammar.suffixRound level start expr := by
  simp [suffixRound, Grammar.suffixRound]

theorem takesTokens_suffixRound (start : Span) : TakesTokens (suffixRound start) := by
  intro T level lv expr s tiled
  rw [read_suffixRound]
  exact Grammar.takesToken_suffixRound lv start expr tiled

def suffixes (start : Span) (expr : Expr) : Routine Expr :=
  loop .suffixes (suffixRound start) (takesTokens_suffixRound start) expr

@[simp] theorem read_suffixes (start : Span) (expr : Expr) :
    (suffixes start expr).read level = Grammar.suffixes level start expr := by
  rw [Grammar.suffixes]
  simp [suffixes, read_suffixRound]

def callExpression : Routine Expr := called .callExpression do
  let start := (← current).span
  if ← accept (.keyword .newWord) then
    let callee ← primary
    let args ← if ← accept (.mark .lParen) then arguments else pure []
    suffixes start (.new callee args (← spanFrom start))
  else
    suffixes start (← primary)

@[simp] theorem read_callExpression : callExpression.read level = Grammar.callExpression level := by
  simp [callExpression, Grammar.callExpression]

def postfixExpression : Routine Expr := called .postfixExpression do
  let start := (← current).span
  let expr ← callExpression
  let next ← current
  match next.newlineBefore, updateOp? next.kind with
  | false, some increment =>
    advance
    return .update increment false expr (← spanFrom start)
  | _, _ => return expr

@[simp] theorem read_postfixExpression :
    postfixExpression.read level = Grammar.postfixExpression level := by
  rw [postfixExpression, Grammar.postfixExpression]
  simp only [read_called, read_bind, read_current, read_callExpression]
  refine congrArg (Reader.current >>= ·) (funext fun start => ?_)
  refine congrArg (Grammar.callExpression level >>= ·) (funext fun expr => ?_)
  refine congrArg (Reader.current >>= ·) (funext fun next => ?_)
  cases next.newlineBefore <;> cases updateOp? next.kind <;> rfl

/-- An operand, one level down. -/
def operandBody : Routine Expr := do
  let t ← current
  match unaryOp? t.kind, updateOp? t.kind with
  | some op, _ =>
    advance
    let argument ← operand
    return .unary op argument (← spanFrom t.span)
  | none, some increment =>
    advance
    let argument ← operand
    return .update increment true argument (← spanFrom t.span)
  | none, none => postfixExpression

theorem read_operandBody : operandBody.read level = Grammar.operand level := by
  simp only [operandBody, Grammar.operand, read_bind, read_current]
  refine congrArg (Reader.current >>= ·) (funext fun t => ?_)
  cases unaryOp? t.kind <;> cases updateOp? t.kind <;> simp

/-! ### Operators -/

section

variable {least : Nat} {right : (op : Operator) → least ≤ op.precedence → Routine Expr}

def joinRound (right : (op : Operator) → least ≤ op.precedence → Routine Expr) (start : Span)
    (left : Expr) : Routine (Round Expr Expr) := do
  match operator? (← current).kind with
  | none => return .done left
  | some op =>
    if enough : least ≤ op.precedence then
      advance
      let other ← right op enough
      return .more (join op left other (← spanFrom start))
    else
      return .done left

/-- The routine for what stands on the right of an operator reads operators of higher
    precedence. -/
def ReadsHigher (right : (op : Operator) → least ≤ op.precedence → Routine Expr) : Prop :=
  ∀ op enough level, (right op enough).read level = Grammar.binary level (op.precedence + 1)

theorem read_joinRound (higher : ReadsHigher right) (start : Span) (left : Expr) :
    (joinRound right start left).read level = Grammar.joinRound level least start left := by
  simp only [joinRound, Grammar.joinRound, read_bind, read_current]
  refine congrArg (Reader.current >>= ·) (funext fun t => ?_)
  cases operator? t.kind with
  | none => rfl
  | some op =>
    by_cases enough : least ≤ op.precedence
    · simp [enough, higher op enough]
    · simp [enough]

theorem takesTokens_joinRound (higher : ReadsHigher right) (start : Span) :
    TakesTokens (joinRound right start) := by
  intro T level lv left s tiled
  rw [read_joinRound higher]
  exact Grammar.takesToken_joinRound lv least start left tiled

/-- Operands and operators of at least the given precedence. -/
def binaryBody (higher : ReadsHigher right) : Routine Expr := do
  let start := (← current).span
  let first ← operand
  loop .binary (joinRound right start) (takesTokens_joinRound higher start) first

theorem read_binaryBody (higher : ReadsHigher right) :
    (binaryBody higher).read level = Grammar.binary level least := by
  rw [Grammar.binary_eq]
  simp [binaryBody, read_joinRound higher]

theorem advances_binaryBody (higher : ReadsHigher right) : (binaryBody higher).Advances := by
  intro T level lv s tiled
  rw [read_binaryBody higher]
  exact (Grammar.binary_places lv least tiled).mono fun e s' row => row.passes tiled

end

/-- The routine of each precedence, which is made of those of higher precedence. -/
def binaryOf (least : Nat) :
    { x : Routine Expr // ∀ level, x.read level = Grammar.binary level least } :=
  -- the loop of this precedence has to know what those of higher precedence read
  let right (op : Operator) (_ : least ≤ op.precedence) := binaryOf (op.precedence + 1)
  have higher : ReadsHigher fun op enough => (right op enough).1 :=
    fun op enough => (right op enough).2
  ⟨called .binary ((binaryBody higher).advancing .binary (advances_binaryBody higher)),
    fun _ => read_binaryBody higher⟩
termination_by Operator.precedenceBound - least
decreasing_by
  have := op.precedence_lt
  omega

def binary (least : Nat) : Routine Expr := (binaryOf least).1

@[simp] theorem read_binary (least : Nat) :
    (binary least).read level = Grammar.binary level least :=
  (binaryOf least).2 level

def conditional : Routine Expr := called .conditional do
  let start := (← current).span
  let test ← binary 0
  if ← accept (.mark .question) then
    let consequent ← expression
    expect (.mark .colon)
    let alternate ← expression
    return .conditional test consequent alternate (← spanFrom start)
  else
    return test

@[simp] theorem read_conditional : conditional.read level = Grammar.conditional level := by
  simp [conditional, Grammar.conditional]

/-- An expression, one level down. -/
def expressionBody : Routine Expr := do
  let start := (← current).span
  let left ← conditional
  match assignOp? (← current).kind with
  | none => return left
  | some op =>
    match target? left with
    | none => refuse .invalidTarget
    | some target =>
      advance
      let value ← expression
      return .assignment op target value (← spanFrom start)

theorem read_expressionBody : expressionBody.read level = Grammar.expression level := by
  rw [expressionBody, Grammar.expression]
  simp only [read_bind, read_current, read_conditional]
  refine congrArg (Reader.current >>= ·) (funext fun start => ?_)
  refine congrArg (Grammar.conditional level >>= ·) (funext fun left => ?_)
  refine congrArg (Reader.current >>= ·) (funext fun next => ?_)
  cases assignOp? next.kind <;> cases target? left <;> rfl

/-! ## Statements -/

def declaration (kind : DeclarationKind) : Routine Stmt := called .declaration do
  let start := (← current).span
  advance
  let id ← identifier
  unless ← accept (.mark .eq) do refuse (.missingInitializer kind)
  let init ← expression
  if ← isAt (.mark .comma) then refuse .severalDeclarators
  endOfStatement
  return .declaration kind id init (← spanFrom start)

@[simp] theorem read_declaration (kind : DeclarationKind) :
    (declaration kind).read level = Grammar.declaration level kind := by
  simp [declaration, Grammar.declaration]

def functionDeclaration : Routine Stmt := called .functionDeclaration do
  let start := (← current).span
  advance
  match (← current).kind with
  | .identifier _ =>
    let id ← identifier
    return .function (← functionRest (some id) start)
  | _ => refuse .unnamedFunction

@[simp] theorem read_functionDeclaration :
    functionDeclaration.read level = Grammar.functionDeclaration level := by
  simp only [functionDeclaration, Grammar.functionDeclaration, read_called, read_bind, read_current,
    read_advance]
  refine congrArg (Reader.current >>= ·) (funext fun start => ?_)
  refine congrArg (Reader.advance >>= ·) (funext fun _ => ?_)
  refine congrArg (Reader.current >>= ·) (funext fun t => ?_)
  cases t.kind <;> simp

def conditionalStatement : Routine Stmt := called .conditionalStatement do
  let start := (← current).span
  advance
  expect (.mark .lParen)
  let test ← expression
  expect (.mark .rParen)
  let consequent ← statement
  let alternate ←
    if ← accept (.keyword .elseWord) then do pure (some (← statement)) else pure none
  return .conditional test consequent alternate (← spanFrom start)

@[simp] theorem read_conditionalStatement :
    conditionalStatement.read level = Grammar.conditionalStatement level := by
  simp [conditionalStatement, Grammar.conditionalStatement]

def returnStatement : Routine Stmt := called .returnStatement do
  let start := (← current).span
  advance
  let t ← current
  let isBare := t.kind = .mark .semicolon || t.kind = .mark .rBrace || t.kind = .eof ||
    t.newlineBefore
  let argument ← if isBare then pure none else do pure (some (← expression))
  endOfStatement
  return .returns argument (← spanFrom start)

@[simp] theorem read_returnStatement :
    returnStatement.read level = Grammar.returnStatement level := by
  simp [returnStatement, Grammar.returnStatement]

def whileStatement : Routine Stmt := called .whileStatement do
  let start := (← current).span
  advance
  expect (.mark .lParen)
  let test ← expression
  expect (.mark .rParen)
  let body ← statement
  return .whileLoop test body (← spanFrom start)

@[simp] theorem read_whileStatement : whileStatement.read level = Grammar.whileStatement level := by
  simp [whileStatement, Grammar.whileStatement]

def doWhileStatement : Routine Stmt := called .doWhileStatement do
  let start := (← current).span
  advance
  let body ← statement
  expect (.keyword .whileWord)
  expect (.mark .lParen)
  let test ← expression
  expect (.mark .rParen)
  let _ ← accept (.mark .semicolon)
  return .doWhileLoop body test (← spanFrom start)

@[simp] theorem read_doWhileStatement :
    doWhileStatement.read level = Grammar.doWhileStatement level := by
  simp [doWhileStatement, Grammar.doWhileStatement]

def parensRound (depth : Nat) : Routine (Round Nat Unit) := do
  match (← current).kind with
  | .eof => unexpected .closingParen
  | .mark .lParen =>
    advance
    return .more (depth + 1)
  | .mark .rParen =>
    advance
    if depth = 0 then return .done () else return .more (depth - 1)
  | _ =>
    advance
    return .more depth

theorem read_parensRound (depth : Nat) :
    (parensRound depth).read level = Grammar.parensRound depth := by
  simp only [parensRound, Grammar.parensRound, read_bind, read_current]
  refine congrArg (Reader.current >>= ·) (funext fun t => ?_)
  cases t.kind with
  | mark m => cases m <;> simp
  | _ => rfl

theorem takesTokens_parensRound : TakesTokens parensRound := by
  intro T level _ depth s _
  rw [read_parensRound]
  exact Grammar.takesToken_parensRound depth

def skipParens : Routine Unit :=
  called .skipParens (loop .skipParens parensRound takesTokens_parensRound 0)

@[simp] theorem read_skipParens : skipParens.read level = Grammar.skipParens := by
  rw [Grammar.skipParens]
  simp [skipParens, read_parensRound]

def forInit : Routine (Option Stmt) := do
  let t ← current
  match t.kind with
  | .mark .semicolon =>
    advance
    return none
  | .keyword .constWord => return some (← declaration .constKind)
  | .keyword .letWord => return some (← declaration .letKind)
  | _ =>
    let expr ← expression
    expect (.mark .semicolon)
    return some (.expression expr (← spanFrom t.span))

@[simp] theorem read_forInit : forInit.read level = Grammar.forInit level := by
  simp only [forInit, Grammar.forInit, read_bind, read_current]
  refine congrArg (Reader.current >>= ·) (funext fun t => ?_)
  cases t.kind with
  | mark m => cases m <;> simp
  | keyword word => cases word <;> simp
  | _ => simp

def optionalBefore (close : Mark) : Routine (Option Expr) := do
  let expr ← if ← isAt (.mark close) then pure none else do pure (some (← expression))
  expect (.mark close)
  return expr

@[simp] theorem read_optionalBefore (close : Mark) :
    (optionalBefore close).read level = Grammar.optionalBefore level close := by
  simp [optionalBefore, Grammar.optionalBefore]

def forStatement : Routine Stmt := called .forStatement do
  let start := (← current).span
  advance
  expect (.mark .lParen)
  let t ← current
  let ahead ← isIterationHead
  if (t.kind = .keyword .constWord || t.kind = .keyword .letWord) && ahead then
    skipParens
    let _ ← statement
    return .skipped "for-of loop" (← spanFrom start)
  else
    let init ← forInit
    let test ← optionalBefore .semicolon
    let update ← optionalBefore .rParen
    let body ← statement
    return .forLoop init test update body (← spanFrom start)

@[simp] theorem read_forStatement : forStatement.read level = Grammar.forStatement level := by
  simp only [forStatement, Grammar.forStatement, read_called, read_bind, read_current, read_advance,
    read_expect]
  refine congrArg (Reader.current >>= ·) (funext fun start => ?_)
  refine congrArg (Reader.advance >>= ·) (funext fun _ => ?_)
  refine congrArg (Reader.expect _ >>= ·) (funext fun _ => funext fun s => ?_)
  rw [Reader.bind_of_ok (rfl : Reader.current s = .ok (s.current, s)),
    Reader.bind_of_ok (rfl : isIterationHead.read level s = .ok (Grammar.isIterationHead s, s)),
    Reader.bind_of_ok (rfl : (MonadState.get : Reader Stream) s = .ok (s, s))]
  simp

def throwStatement : Routine Stmt := called .throwStatement do
  let start := (← current).span
  advance
  let argument ← expression
  endOfStatement
  return .throws argument (← spanFrom start)

@[simp] theorem read_throwStatement : throwStatement.read level = Grammar.throwStatement level := by
  simp [throwStatement, Grammar.throwStatement]

def handlerParam : Routine (Option Identifier) := do
  if ← accept (.mark .lParen) then
    let id ← identifier
    expect (.mark .rParen)
    return some id
  else
    return none

@[simp] theorem read_handlerParam : handlerParam.read level = Grammar.handlerParam := by
  simp [handlerParam, Grammar.handlerParam]

def tryStatement : Routine Stmt := called .tryStatement do
  let start := (← current).span
  advance
  let body ← block
  let (param, handler) ←
    if ← accept (.keyword .catchWord) then do
      let param ← handlerParam
      pure (param, some (← block))
    else pure (none, none)
  let finalizer ←
    if ← accept (.keyword .finallyWord) then do pure (some (← block)) else pure none
  if handler.isNone && finalizer.isNone then refuse .missingHandler
  return .tries body param handler finalizer (← spanFrom start)

@[simp] theorem read_tryStatement : tryStatement.read level = Grammar.tryStatement level := by
  simp [tryStatement, Grammar.tryStatement]

def skippedRound (depth : Nat) : Routine (Round Nat Unit) := do
  match (← current).kind with
  | .eof => return .done ()
  | .mark .semicolon =>
    if depth = 0 then
      advance
      return .done ()
    else
      advance
      return .more depth
  | .mark .lBrace =>
    advance
    return .more (depth + 1)
  | .mark .rBrace =>
    if depth = 0 then return .done ()
    else
      advance
      if depth = 1 then return .done () else return .more (depth - 1)
  | _ =>
    advance
    return .more depth

theorem read_skippedRound (depth : Nat) :
    (skippedRound depth).read level = Grammar.skippedRound depth := by
  simp only [skippedRound, Grammar.skippedRound, read_bind, read_current]
  refine congrArg (Reader.current >>= ·) (funext fun t => ?_)
  cases t.kind with
  | mark m => cases m <;> simp
  | _ => rfl

theorem takesTokens_skippedRound : TakesTokens skippedRound := by
  intro T level _ depth s _
  rw [read_skippedRound]
  exact Grammar.takesToken_skippedRound depth

def skippedStatement (construct : String) : Routine Stmt := called .skippedStatement do
  let start := (← current).span
  advance
  loop .skippedStatement skippedRound takesTokens_skippedRound 0
  return .skipped construct (← spanFrom start)

@[simp] theorem read_skippedStatement (construct : String) :
    (skippedStatement construct).read level = Grammar.skippedStatement construct := by
  rw [Grammar.skippedStatement]
  simp [skippedStatement, read_skippedRound]

def wordStatement (build : Span → Stmt) : Routine Stmt := do
  let start := (← current).span
  advance
  endOfStatement
  return build start

@[simp] theorem read_wordStatement (build : Span → Stmt) :
    (wordStatement build).read level = Grammar.wordStatement build := by
  simp [wordStatement, Grammar.wordStatement]

def expressionStatement : Routine Stmt := called .expressionStatement do
  let start := (← current).span
  let expr ← expression
  endOfStatement
  return .expression expr (← spanFrom start)

@[simp] theorem read_expressionStatement :
    expressionStatement.read level = Grammar.expressionStatement level := by
  simp [expressionStatement, Grammar.expressionStatement]

/-- A statement, one level down. -/
def statementBody : Routine Stmt := do
  match (← current).kind with
  | .keyword .constWord => declaration .constKind
  | .keyword .letWord => declaration .letKind
  | .keyword .varWord => refuse .varDeclaration
  | .keyword .functionWord => functionDeclaration
  | .keyword .ifWord => conditionalStatement
  | .keyword .returnWord => returnStatement
  | .mark .lBrace => return .block (← block)
  | .keyword .whileWord => whileStatement
  | .keyword .doWord => doWhileStatement
  | .keyword .forWord => forStatement
  | .keyword .breakWord => wordStatement .breaks
  | .keyword .continueWord => wordStatement .continues
  | .keyword .throwWord => throwStatement
  | .keyword .tryWord => tryStatement
  | .keyword .classWord => skippedStatement "class declaration"
  | .keyword .switchWord => skippedStatement "switch statement"
  | .keyword .importWord => skippedStatement "import declaration"
  | .keyword .exportWord => skippedStatement "export declaration"
  | .keyword .debuggerWord => skippedStatement "debugger statement"
  | _ => expressionStatement

theorem read_statementBody : statementBody.read level = Grammar.statement level := by
  simp only [statementBody, Grammar.statement, read_bind, read_current]
  refine congrArg (Reader.current >>= ·) (funext fun t => ?_)
  cases t.kind with
  | mark m => cases m <;> simp
  | keyword word => cases word <;> simp
  | _ => simp

def program : Routine Program := called .program do
  let start := (← current).span
  let body ← statements (· = .eof)
  return ⟨body, ← spanFrom start⟩

theorem read_program : program.read (Level.ofDepth maxNesting) = Program.reader := by
  simp [program, Program.reader]

end Descent.Routine

end SourceMachine
