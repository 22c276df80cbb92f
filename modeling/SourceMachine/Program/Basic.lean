import SourceMachine.Program.Operator
import SourceMachine.Text.Position

/-!
# Programs as trees

The tree of a program keeps the stretch of text of every node.  It also has nodes
for constructs that are read but never run, such as loops and objects, so that a
program using one can be told which construct it was.
-/

namespace SourceMachine

/-- A name where it stands in a text. -/
structure Identifier where
  name : String
  span : Span := {}
deriving DecidableEq, Repr

/-- The value of a literal. -/
inductive Literal where
  | null
  | boolean (value : Bool)
  | number (value : Float)
  | string (text : String)
deriving DecidableEq

/-- The two kinds of variable declarations. -/
inductive DeclarationKind where
  | letKind
  | constKind
deriving DecidableEq, Repr

/-- The word that a declaration starts with. -/
def DeclarationKind.text : DeclarationKind → String
  | .letKind => "let"
  | .constKind => "const"

/-- Whether a declared name may be assigned. -/
def DeclarationKind.isMutable : DeclarationKind → Bool
  | .letKind => true
  | .constKind => false

/-- A parameter of a function.  A rest parameter takes all arguments that are
    left. -/
structure Param where
  id : Identifier
  isRest : Bool
deriving DecidableEq, Repr

mutual

/-- Expressions. -/
inductive Expr where
  | literal (value : Literal) (span : Span)
  | identifier (id : Identifier)
  | unary (op : UnaryOp) (operand : Expr) (span : Span)
  | binary (op : BinaryOp) (left right : Expr) (span : Span)
  | logical (op : LogicalOp) (left right : Expr) (span : Span)
  | conditional (test consequent alternate : Expr) (span : Span)
  | call (callee : Expr) (arguments : List Expr) (span : Span)
  | assignment (op : AssignOp) (target : Target) (value : Expr) (span : Span)
  | function (function : Function)
  | array (elements : List Expr) (span : Span)
  | object (properties : List (String × Expr)) (span : Span)
  | member (access : Member)
  | new (callee : Expr) (arguments : List Expr) (span : Span)
  | update (increment : Bool) (before : Bool) (argument : Expr) (span : Span)
  | template (text : String) (span : Span)
  | this (span : Span)

/-- The left side of an assignment. -/
inductive Target where
  | identifier (id : Identifier)
  | member (access : Member)

/-- A member of an object. -/
structure Member where
  object : Expr
  property : Property
  span : Span

/-- How a member is named. -/
inductive Property where
  | identifier (id : Identifier)
  | computed (key : Expr)

/-- Statements. -/
inductive Stmt where
  | declaration (kind : DeclarationKind) (id : Identifier) (init : Expr) (span : Span)
  | function (function : Function)
  | block (block : Block)
  | conditional (test : Expr) (consequent : Stmt) (alternate : Option Stmt) (span : Span)
  | returns (argument : Option Expr) (span : Span)
  | expression (expr : Expr) (span : Span)
  | whileLoop (test : Expr) (body : Stmt) (span : Span)
  | doWhileLoop (body : Stmt) (test : Expr) (span : Span)
  | forLoop (init : Option Stmt) (test update : Option Expr) (body : Stmt) (span : Span)
  | breaks (span : Span)
  | continues (span : Span)
  | throws (argument : Expr) (span : Span)
  | tries (block : Block) (param : Option Identifier) (handler finalizer : Option Block)
      (span : Span)
  /-- A construct of which only the name and the place are kept. -/
  | skipped (construct : String) (span : Span)

/-- A function declaration, a function expression, or an arrow function.  An
    arrow function whose body is an expression has a block that returns it. -/
structure Function where
  id : Option Identifier
  params : List Param
  body : Block
  isArrow : Bool
  span : Span

/-- Statements between braces. -/
structure Block where
  body : List Stmt
  span : Span

end

/-- A whole program. -/
structure Program where
  body : List Stmt
  span : Span

/-- The stretch of text of an expression. -/
def Expr.span : Expr → Span
  | .literal _ span | .unary _ _ span | .binary _ _ _ span | .logical _ _ _ span
  | .conditional _ _ _ span | .call _ _ span | .assignment _ _ _ span | .array _ span
  | .object _ span | .new _ _ span | .update _ _ _ span | .template _ span | .this span => span
  | .identifier id => id.span
  | .function f => f.span
  | .member access => access.span

/-- The stretch of text of a statement. -/
def Stmt.span : Stmt → Span
  | .declaration _ _ _ span | .conditional _ _ _ span | .returns _ span | .expression _ span
  | .whileLoop _ _ span | .doWhileLoop _ _ span | .forLoop _ _ _ _ span | .breaks span
  | .continues span | .throws _ span | .tries _ _ _ _ span | .skipped _ span => span
  | .function f => f.span
  | .block b => b.span

/-- The name of an expression that is read but never run. -/
def Expr.unsupported? : Expr → Option String
  | .array .. => some "array expression"
  | .object .. => some "object expression"
  | .member .. => some "member access"
  | .new .. => some "new expression"
  | .update .. => some "update expression"
  | .template .. => some "template literal"
  | .this .. => some "this"
  | .literal .. | .identifier .. | .unary .. | .binary .. | .logical .. | .conditional ..
  | .call .. | .assignment .. | .function .. => none

/-- The name of a statement that is read but never run. -/
def Stmt.unsupported? : Stmt → Option String
  | .whileLoop .. => some "while loop"
  | .doWhileLoop .. => some "do-while loop"
  | .forLoop .. => some "for loop"
  | .breaks .. => some "break statement"
  | .continues .. => some "continue statement"
  | .throws .. => some "throw statement"
  | .tries .. => some "try statement"
  | .skipped construct _ => some construct
  | .declaration .. | .function .. | .block .. | .conditional .. | .returns .. | .expression .. =>
    none

end SourceMachine
