import Mathlib
import SourceMachine.Program.Basic

/-!
# The nodes of a program

Everything in the tree of a program that has a stretch of text: the program, statements,
expressions, functions, blocks, member accesses and names, also in the constructs that are
read but never run.  `Node.children` are the parts of a node in the order in which they stand
in the text, and `Program.HasNode` are all nodes of a program.
-/

namespace SourceMachine

/-- A part of a program that has a stretch of text. -/
inductive Node where
  | program (program : Program)
  | statement (stmt : Stmt)
  | expression (expr : Expr)
  | function (function : Function)
  | block (block : Block)
  | member (access : Member)
  | identifier (id : Identifier)

namespace Node

/-- The stretch of text of a node. -/
def span : Node → Span
  | .program p => p.span
  | .statement s => s.span
  | .expression e => e.span
  | .function f => f.span
  | .block b => b.span
  | .member access => access.span
  | .identifier id => id.span

/-- What is assigned to. -/
def ofTarget : Target → Node
  | .identifier id => .identifier id
  | .member access => .member access

/-- What names a member. -/
def ofProperty : Property → Node
  | .identifier id => .identifier id
  | .computed key => .expression key

/-- The parts of an expression, in the order of the text. -/
def ofExpr : Expr → List Node
  | .literal .. | .template .. | .this .. => []
  | .identifier id => [.identifier id]
  | .unary _ operand _ => [.expression operand]
  | .binary _ left right _ | .logical _ left right _ => [.expression left, .expression right]
  | .conditional test consequent alternate _ =>
    [.expression test, .expression consequent, .expression alternate]
  | .call callee arguments _ | .new callee arguments _ =>
    .expression callee :: arguments.map .expression
  | .assignment _ target value _ => [ofTarget target, .expression value]
  | .function f => [.function f]
  | .array elements _ => elements.map .expression
  | .object properties _ => properties.map fun (_, value) => .expression value
  | .member access => [.member access]
  | .update _ _ argument _ => [.expression argument]

/-- The parts of a statement, in the order of the text. -/
def ofStmt : Stmt → List Node
  | .declaration _ id init _ => [.identifier id, .expression init]
  | .function f => [.function f]
  | .block b => [.block b]
  | .conditional test consequent alternate _ =>
    .expression test :: .statement consequent :: alternate.toList.map .statement
  | .returns argument _ => argument.toList.map .expression
  | .expression e _ => [.expression e]
  | .whileLoop test body _ => [.expression test, .statement body]
  | .doWhileLoop body test _ => [.statement body, .expression test]
  | .forLoop init test update body _ =>
    init.toList.map .statement ++ (test.toList.map .expression ++
      (update.toList.map .expression ++ [.statement body]))
  | .breaks .. | .continues .. | .skipped .. => []
  | .throws argument _ => [.expression argument]
  | .tries body param handler finalizer _ =>
    .block body :: (param.toList.map .identifier ++ (handler.toList.map .block ++
      finalizer.toList.map .block))

/-- The parts of a node, in the order of the text. -/
def children : Node → List Node
  | .program p => p.body.map .statement
  | .statement s => ofStmt s
  | .expression e => ofExpr e
  | .function f =>
    f.id.toList.map .identifier ++ (f.params.map (fun p => .identifier p.id) ++ [.block f.body])
  | .block b => b.body.map .statement
  | .member access => [.expression access.object, ofProperty access.property]
  | .identifier _ => []

end Node

/-- The node is a program, or a part of it at any depth. -/
inductive Program.HasNode (p : Program) : Node → Prop where
  | root : HasNode p (.program p)
  | child {whole part : Node} (outer : HasNode p whole) (member : part ∈ whole.children) :
      HasNode p part

end SourceMachine
