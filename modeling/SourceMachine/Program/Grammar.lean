import SourceMachine.Program.Reader

/-!
# The grammar

Statements and expressions may be nested only so deep.  Three kinds of phrases
count: statements, whole expressions, and operands.  Every other phrase is read
with the readers for those three one level further down (`Level`), so the grammar
is a plain function of the level below, and `Level.ofDepth` builds the levels by
recursion on the depth that is still allowed.
-/

namespace SourceMachine

/-- The deepest nesting of statements, expressions and operands. -/
def maxNesting : Nat := 200

/-- The readers for the phrases that count as a level of nesting. -/
structure Level where
  statement : Reader Stmt
  expression : Reader Expr
  operand : Reader Expr

namespace Grammar

open Reader

/-! ## Operators by their marks -/

/-- The operator between two operands that a token stands for. -/
def operator? : Kind → Option Operator
  | .mark .questionQuestion => some (.logical .nullish)
  | .mark .pipePipe => some (.logical .or)
  | .mark .ampAmp => some (.logical .and)
  | .mark .eqEq => some (.binary .looseEq)
  | .mark .bangEq => some (.binary .looseNotEq)
  | .mark .eqEqEq => some (.binary .strictEq)
  | .mark .bangEqEq => some (.binary .strictNotEq)
  | .mark .lt => some (.binary .lt)
  | .mark .ltEq => some (.binary .le)
  | .mark .gt => some (.binary .gt)
  | .mark .gtEq => some (.binary .ge)
  | .mark .plus => some (.binary .add)
  | .mark .minus => some (.binary .sub)
  | .mark .star => some (.binary .mul)
  | .mark .slash => some (.binary .div)
  | .mark .percent => some (.binary .rem)
  | _ => none

/-- The operator before an operand that a token stands for. -/
def unaryOp? : Kind → Option UnaryOp
  | .mark .minus => some .minus
  | .mark .plus => some .plus
  | .mark .bang => some .not
  | .keyword .typeofWord => some .typeof
  | _ => none

/-- Whether a token counts up or down. -/
def updateOp? : Kind → Option Bool
  | .mark .plusPlus => some true
  | .mark .minusMinus => some false
  | _ => none

/-- The assignment that a token stands for. -/
def assignOp? : Kind → Option AssignOp
  | .mark .eq => some .assign
  | .mark .plusEq => some .add
  | .mark .minusEq => some .sub
  | .mark .starEq => some .mul
  | .mark .slashEq => some .div
  | .mark .percentEq => some .rem
  | _ => none

/-- Two operands joined by an operator. -/
def join (op : Operator) (left right : Expr) (span : Span) : Expr :=
  match op with
  | .binary op => .binary op left right span
  | .logical op => .logical op left right span

/-! ## Blocks and functions -/

/-- One turn of a list of statements: a semicolon, or a statement. -/
def statementsRound (level : Level) (isEnd : Kind → Bool) (body : List Stmt) :
    Reader (Round (List Stmt) (List Stmt)) := do
  let t ← current
  if isEnd t.kind then return .done body
  if t.kind = .eof then unexpected .closingBrace
  if ← accept (.mark .semicolon) then return .more body
  return .more ((← level.statement) :: body)

/-- Statements up to a token that ends them.  A semicolon by itself is no
    statement. -/
def statements (level : Level) (isEnd : Kind → Bool) : Reader (List Stmt) := do
  let body ← rounds (statementsRound level isEnd) []
  return body.reverse

/-- Statements between braces. -/
def block (level : Level) : Reader Block := do
  let start := (← current).span
  expect (.mark .lBrace)
  let body ← statements level (· = .mark .rBrace)
  expect (.mark .rBrace)
  return ⟨body, ← spanFrom start⟩

/-- One turn of a list of parameters. -/
def paramsRound (params : List Param) : Reader (Round (List Param) (List Param)) := do
  if ← isAt (.mark .rParen) then return .done params
  let isRest ← accept (.mark .dotDotDot)
  let id ← identifier
  if params.any (·.id.name = id.name) then
    throw ⟨.duplicateParam id.name, id.span.line, id.span.column⟩
  let params := ⟨id, isRest⟩ :: params
  if isRest then return .done params
  if ← accept (.mark .comma) then return .more params else return .done params

/-- The parameters of a function after the opening parenthesis, through the
    closing one.  Names differ, and nothing follows a rest parameter. -/
def params : Reader (List Param) := do
  let params ← rounds paramsRound []
  expect (.mark .rParen)
  return params.reverse

/-- The parameters and the body of a function that is no arrow function. -/
def functionRest (level : Level) (id : Option Identifier) (start : Span) : Reader Function := do
  expect (.mark .lParen)
  let params ← params
  let body ← block level
  return ⟨id, params, body, false, ← spanFrom start⟩

/-- An arrow function from its arrow on. -/
def arrowRest (level : Level) (params : List Param) (start : Span) : Reader Expr := do
  expect (.mark .arrow)
  let bodyStart ← current
  let body ←
    if bodyStart.kind = .mark .lBrace then block level
    else do
      let result ← level.expression
      let span ← spanFrom bodyStart.span
      pure ⟨[.returns (some result) span], span⟩
  return .function ⟨none, params, body, true, ← spanFrom start⟩

/-! ## Expressions -/

/-- A parenthesised expression, or an arrow function with its parameters in
    parentheses.  What reads as parameters before an arrow is an arrow function;
    all else is read again as an expression. -/
def parenthesised (level : Level) : Reader Expr := fun s =>
  let asExpression : Reader Expr := do
    advance
    let inner ← level.expression
    expect (.mark .rParen)
    return inner
  match params s.advance with
  | .ok (ps, s') =>
    if s'.current.kind = .mark .arrow then arrowRest level ps s.current.span s' else asExpression s
  | .error _ => asExpression s

/-- The key of a property in an object literal. -/
def propertyKey : Reader String := do
  match (← current).kind with
  | .string text =>
    advance
    return text
  | .number x =>
    advance
    return Number.Layout.key.write x
  | _ => return (← propertyName).name

/-- A property of an object literal.  A key by itself stands for the variable of
    that name. -/
def property (level : Level) : Reader (String × Expr) := do
  let start := (← current).span
  let key ← propertyKey
  if ← accept (.mark .colon) then
    return (key, ← level.expression)
  else
    return (key, .identifier ⟨key, start⟩)

/-- An expression without operators around it. -/
def primary (level : Level) : Reader Expr := do
  let t ← current
  match t.kind with
  | .number x =>
    advance
    return .literal (.number x) t.span
  | .string text =>
    advance
    return .literal (.string text) t.span
  | .keyword .trueWord =>
    advance
    return .literal (.boolean true) t.span
  | .keyword .falseWord =>
    advance
    return .literal (.boolean false) t.span
  | .keyword .nullWord =>
    advance
    return .literal .null t.span
  | .template text =>
    advance
    return .template text t.span
  | .keyword .thisWord =>
    advance
    return .this t.span
  | .identifier name =>
    advance
    let next ← current
    if next.kind = .mark .arrow && !next.newlineBefore then
      arrowRest level [⟨⟨name, t.span⟩, false⟩] t.span
    else
      return .identifier ⟨name, t.span⟩
  | .keyword .functionWord =>
    advance
    let id ← match (← current).kind with
      | .identifier _ => do pure (some (← identifier))
      | _ => pure none
    return .function (← functionRest level id t.span)
  | .mark .lParen => parenthesised level
  | .mark .lBracket =>
    advance
    let elements ← commaList .rBracket level.expression
    return .array elements (← spanFrom t.span)
  | .mark .lBrace =>
    advance
    let properties ← commaList .rBrace (property level)
    return .object properties (← spanFrom t.span)
  | .invalid c => if c = '"' ∨ c = '\'' then refuse .unterminatedString else unexpected .expression
  | _ => unexpected .expression

/-- The arguments of a call after the opening parenthesis, through the closing
    one. -/
def arguments (level : Level) : Reader (List Expr) :=
  commaList .rParen level.expression

/-- One call or member access after an expression. -/
def suffixRound (level : Level) (start : Span) (expr : Expr) : Reader (Round Expr Expr) := do
  if ← accept (.mark .lParen) then
    let args ← arguments level
    return .more (.call expr args (← spanFrom start))
  else if ← accept (.mark .dot) then
    let name ← propertyName
    return .more (.member ⟨expr, .identifier name, ← spanFrom start⟩)
  else if ← accept (.mark .lBracket) then
    let key ← level.expression
    expect (.mark .rBracket)
    return .more (.member ⟨expr, .computed key, ← spanFrom start⟩)
  else
    return .done expr

/-- Calls and member accesses after an expression, as many as there are. -/
def suffixes (level : Level) (start : Span) (expr : Expr) : Reader Expr :=
  rounds (suffixRound level start) expr

/-- A primary expression, perhaps constructed with `new`, and what is called or
    taken from it. -/
def callExpression (level : Level) : Reader Expr := do
  let start := (← current).span
  if ← accept (.keyword .newWord) then
    let callee ← primary level
    let args ← if ← accept (.mark .lParen) then arguments level else pure []
    suffixes level start (.new callee args (← spanFrom start))
  else
    suffixes level start (← primary level)

/-- A call expression, perhaps counted up or down on the same line. -/
def postfixExpression (level : Level) : Reader Expr := do
  let start := (← current).span
  let expr ← callExpression level
  let next ← current
  match next.newlineBefore, updateOp? next.kind with
  | false, some increment =>
    advance
    return .update increment false expr (← spanFrom start)
  | _, _ => return expr

/-- An operand: a postfix expression with operators before it. -/
def operand (level : Level) : Reader Expr := do
  let t ← current
  match unaryOp? t.kind, updateOp? t.kind with
  | some op, _ =>
    advance
    let argument ← level.operand
    return .unary op argument (← spanFrom t.span)
  | none, some increment =>
    advance
    let argument ← level.operand
    return .update increment true argument (← spanFrom t.span)
  | none, none => postfixExpression level

/-- Operands joined by operators of at least the given precedence.  Operators of
    one precedence group to the left. -/
def binary (level : Level) (least : Nat) : Reader Expr := do
  let start := (← current).span
  let first ← level.operand
  rounds (fun (left : Expr) => do
    match operator? (← current).kind with
    | none => return .done left
    | some op =>
      if least ≤ op.precedence then
        advance
        let right ← binary level (op.precedence + 1)
        return .more (join op left right (← spanFrom start))
      else
        return .done left) first
termination_by Operator.precedenceBound - least
decreasing_by
  have := op.precedence_lt
  omega

/-- Operands joined by operators, perhaps the test of a conditional. -/
def conditional (level : Level) : Reader Expr := do
  let start := (← current).span
  let test ← binary level 0
  if ← accept (.mark .question) then
    let consequent ← level.expression
    expect (.mark .colon)
    let alternate ← level.expression
    return .conditional test consequent alternate (← spanFrom start)
  else
    return test

/-- What an expression can be assigned to. -/
def target? : Expr → Option Target
  | .identifier id => some (.identifier id)
  | .member access => some (.member access)
  | _ => none

/-- An expression: an assignment, which groups to the right, or a conditional. -/
def expression (level : Level) : Reader Expr := do
  let start := (← current).span
  let left ← conditional level
  match assignOp? (← current).kind with
  | none => return left
  | some op =>
    match target? left with
    | none => refuse .invalidTarget
    | some target =>
      advance
      let value ← level.expression
      return .assignment op target value (← spanFrom start)

/-! ## Statements -/

/-- A declaration of one variable with its initial value. -/
def declaration (level : Level) (kind : DeclarationKind) : Reader Stmt := do
  let start := (← current).span
  advance
  let id ← identifier
  unless ← accept (.mark .eq) do refuse (.missingInitializer kind)
  let init ← level.expression
  if ← isAt (.mark .comma) then refuse .severalDeclarators
  endOfStatement
  return .declaration kind id init (← spanFrom start)

/-- A function declaration. -/
def functionDeclaration (level : Level) : Reader Stmt := do
  let start := (← current).span
  advance
  match (← current).kind with
  | .identifier _ =>
    let id ← identifier
    return .function (← functionRest level (some id) start)
  | _ => refuse .unnamedFunction

/-- A conditional statement. -/
def conditionalStatement (level : Level) : Reader Stmt := do
  let start := (← current).span
  advance
  expect (.mark .lParen)
  let test ← level.expression
  expect (.mark .rParen)
  let consequent ← level.statement
  let alternate ←
    if ← accept (.keyword .elseWord) then do pure (some (← level.statement)) else pure none
  return .conditional test consequent alternate (← spanFrom start)

/-- A return statement.  Its value starts on the same line. -/
def returnStatement (level : Level) : Reader Stmt := do
  let start := (← current).span
  advance
  let t ← current
  let isBare := t.kind = .mark .semicolon || t.kind = .mark .rBrace || t.kind = .eof ||
    t.newlineBefore
  let argument ← if isBare then pure none else do pure (some (← level.expression))
  endOfStatement
  return .returns argument (← spanFrom start)

/-- A loop with its test before the body. -/
def whileStatement (level : Level) : Reader Stmt := do
  let start := (← current).span
  advance
  expect (.mark .lParen)
  let test ← level.expression
  expect (.mark .rParen)
  let body ← level.statement
  return .whileLoop test body (← spanFrom start)

/-- A loop with its test after the body. -/
def doWhileStatement (level : Level) : Reader Stmt := do
  let start := (← current).span
  advance
  let body ← level.statement
  expect (.keyword .whileWord)
  expect (.mark .lParen)
  let test ← level.expression
  expect (.mark .rParen)
  let _ ← accept (.mark .semicolon)
  return .doWhileLoop body test (← spanFrom start)

/-- Whether the declaration at the head of a loop names what it runs over: its
    name is followed by `of` or `in`. -/
def isIterationHead (s : Stream) : Bool :=
  match s.rest with
  | ⟨.identifier _, _, _⟩ :: ⟨.identifier word, _, _⟩ :: _ => word = "of" || word = "in"
  | _ => false

/-- One token inside of parentheses whose text is skipped. -/
def parensRound (depth : Nat) : Reader (Round Nat Unit) := do
  match (← current).kind with
  | .eof => unexpected .closingParen
  | .mark .lParen =>
    advance
    return .more (depth + 1)
  | .mark .rParen =>
    advance
    if depth = 0 then return .done () else return .more (depth - 1)
  | _ =>
    advance
    return .more depth

/-- Take everything up to the parenthesis that closes one already open. -/
def skipParens : Reader Unit :=
  rounds parensRound 0

/-- The first part of the head of a counting loop, through its semicolon. -/
def forInit (level : Level) : Reader (Option Stmt) := do
  let t ← current
  match t.kind with
  | .mark .semicolon =>
    advance
    return none
  | .keyword .constWord => return some (← declaration level .constKind)
  | .keyword .letWord => return some (← declaration level .letKind)
  | _ =>
    let expr ← level.expression
    expect (.mark .semicolon)
    return some (.expression expr (← spanFrom t.span))

/-- An expression that may be missing before a mark, and that mark. -/
def optionalBefore (level : Level) (close : Mark) : Reader (Option Expr) := do
  let expr ← if ← isAt (.mark close) then pure none else do pure (some (← level.expression))
  expect (.mark close)
  return expr

/-- A counting loop, or a loop over something, of which only the place is kept. -/
def forStatement (level : Level) : Reader Stmt := do
  let start := (← current).span
  advance
  expect (.mark .lParen)
  let s ← get
  if (s.current.kind = .keyword .constWord || s.current.kind = .keyword .letWord) &&
      isIterationHead s then
    skipParens
    let _ ← level.statement
    return .skipped "for-of loop" (← spanFrom start)
  else
    let init ← forInit level
    let test ← optionalBefore level .semicolon
    let update ← optionalBefore level .rParen
    let body ← level.statement
    return .forLoop init test update body (← spanFrom start)

/-- A throw statement. -/
def throwStatement (level : Level) : Reader Stmt := do
  let start := (← current).span
  advance
  let argument ← level.expression
  endOfStatement
  return .throws argument (← spanFrom start)

/-- The name that a handler gives to what was thrown. -/
def handlerParam : Reader (Option Identifier) := do
  if ← accept (.mark .lParen) then
    let id ← identifier
    expect (.mark .rParen)
    return some id
  else
    return none

/-- A try statement with a handler, a finalizer, or both. -/
def tryStatement (level : Level) : Reader Stmt := do
  let start := (← current).span
  advance
  let body ← block level
  let (param, handler) ←
    if ← accept (.keyword .catchWord) then do
      let param ← handlerParam
      pure (param, some (← block level))
    else pure (none, none)
  let finalizer ←
    if ← accept (.keyword .finallyWord) then do pure (some (← block level)) else pure none
  if handler.isNone && finalizer.isNone then refuse .missingHandler
  return .tries body param handler finalizer (← spanFrom start)

/-- One token of a construct that is skipped. -/
def skippedRound (depth : Nat) : Reader (Round Nat Unit) := do
  match (← current).kind with
  | .eof => return .done ()
  | .mark .semicolon =>
    if depth = 0 then
      advance
      return .done ()
    else
      advance
      return .more depth
  | .mark .lBrace =>
    advance
    return .more (depth + 1)
  | .mark .rBrace =>
    if depth = 0 then return .done ()
    else
      advance
      if depth = 1 then return .done () else return .more (depth - 1)
  | _ =>
    advance
    return .more depth

/-- A construct of which only the place is kept: everything up to a semicolon
    outside of braces, or through the brace that closes the first one opened. -/
def skippedStatement (construct : String) : Reader Stmt := do
  let start := (← current).span
  advance
  rounds skippedRound 0
  return .skipped construct (← spanFrom start)

/-- A word that is a statement by itself. -/
def wordStatement (build : Span → Stmt) : Reader Stmt := do
  let start := (← current).span
  advance
  endOfStatement
  return build start

/-- An expression as a statement. -/
def expressionStatement (level : Level) : Reader Stmt := do
  let start := (← current).span
  let expr ← level.expression
  endOfStatement
  return .expression expr (← spanFrom start)

/-- A statement, by its first token. -/
def statement (level : Level) : Reader Stmt := do
  match (← current).kind with
  | .keyword .constWord => declaration level .constKind
  | .keyword .letWord => declaration level .letKind
  | .keyword .varWord => refuse .varDeclaration
  | .keyword .functionWord => functionDeclaration level
  | .keyword .ifWord => conditionalStatement level
  | .keyword .returnWord => returnStatement level
  | .mark .lBrace => return .block (← block level)
  | .keyword .whileWord => whileStatement level
  | .keyword .doWord => doWhileStatement level
  | .keyword .forWord => forStatement level
  | .keyword .breakWord => wordStatement .breaks
  | .keyword .continueWord => wordStatement .continues
  | .keyword .throwWord => throwStatement level
  | .keyword .tryWord => tryStatement level
  | .keyword .classWord => skippedStatement "class declaration"
  | .keyword .switchWord => skippedStatement "switch statement"
  | .keyword .importWord => skippedStatement "import declaration"
  | .keyword .exportWord => skippedStatement "export declaration"
  | .keyword .debuggerWord => skippedStatement "debugger statement"
  | _ => expressionStatement level

end Grammar

/-- The readers when `depth` more levels of nesting are allowed. -/
def Level.ofDepth : (depth : Nat) → Level
  | 0 => ⟨Reader.refuse .tooDeep, Reader.refuse .tooDeep, Reader.refuse .tooDeep⟩
  | depth + 1 =>
    let below := Level.ofDepth depth
    ⟨Grammar.statement below, Grammar.expression below, Grammar.operand below⟩

/-- A program: statements up to the end of the text. -/
def Program.reader : Reader Program := do
  let start := (← Reader.current).span
  let body ← Grammar.statements (Level.ofDepth maxNesting) (· = .eof)
  return ⟨body, ← Reader.spanFrom start⟩

/-- Read a program. -/
def Program.read (text : String) : Except Refusal Program :=
  let first := (Scanner.ofText text).next
  let rest := if first.1.kind = .eof then [] else first.2.tokensAfter []
  (Program.reader (Stream.ofTokens first.1 rest)).map (·.1)

end SourceMachine
