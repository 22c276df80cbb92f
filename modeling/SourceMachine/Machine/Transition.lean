import SourceMachine.Machine.Block
import SourceMachine.Machine.Call
import SourceMachine.Value.Operation

/-!
# Transitions

One transition looks at what the machine works on.  A statement or an expression
puts a frame on the stack for the part of it that has to be evaluated first; a
value is taken by the frame on top.
-/

namespace SourceMachine

/-- The value of a literal. -/
def Literal.value : Literal → Value
  | .null => .null
  | .boolean b => .boolean b
  | .number x => .number x
  | .string s => .string s

/-- The name that an assignment is to, if it is one that can be made. -/
def Target.assignee (target : Target) (op : AssignOp) (span : Span) : Except Fault Identifier :=
  match op, target with
  | .assign, .identifier id => .ok id
  | .assign, .member _ => .error ⟨.unsupported "member assignment", span⟩
  | op, _ => .error ⟨.unsupported (op.text ++ " assignment"), span⟩

namespace Machine

/-- Make a closure of a function and the current scopes. -/
def newClosure (m : Machine) (f : Function) : Value × Machine :=
  m.onHeap (·.newClosure ⟨f, m.env⟩)

/-- Decide later between two ways to go on. -/
def pushBranch (m : Machine) (consequent alternate : Control) (span : Span) : Machine :=
  m.push (.branch consequent alternate span m.env)

/-- Start a declaration, whose value is still to come. -/
def startDeclaration (m : Machine) (id : Identifier) (isMutable : Bool) :
    Except Fault Unit × Machine :=
  match m.world.heap.checkUnassigned m.env id isMutable with
  | .error fault => (.error fault, m)
  | .ok () => (.ok (), m.push (.declare id isMutable m.env))

/-- Start a statement. -/
def execute (m : Machine) (s : Stmt) : Move :=
  match s with
  | .declaration kind id init _ =>
    match m.startDeclaration id kind.isMutable with
    | (.error fault, m) => (.error fault, m)
    | (.ok (), m) => (.ok (.expression init), m)
  | .function f =>
    match f.id with
    | none => (.error ⟨.unsupported "anonymous function declaration", f.span⟩, m)
    | some id =>
      match m.startDeclaration id false with
      | (.error fault, m) => (.error fault, m)
      | (.ok (), m) =>
        let (v, m) := m.newClosure f
        (.ok (.value v), m)
  | .block b => m.enterBlock b
  | .conditional test consequent alternate _ =>
    let alternate := alternate.elim (.value .undefined) .statement
    (.ok (.expression test), m.pushBranch (.statement consequent) alternate test.span)
  | .returns argument span =>
    match m.world.heap.lookup? returnPoint m.env with
    | none => (.error ⟨.returnOutsideFunction, span⟩, m)
    | some k =>
      -- Returning is a call of the return point with one argument.
      let m := m.push (.argument [] 0 [] k span m.env)
      (.ok (argument.elim (.value .undefined) .expression), m)
  | .expression e _ => (.ok (.expression e), m)
  | s => (.error ⟨.unsupported (s.unsupported?.getD "statement"), s.span⟩, m)

/-- Start an expression. -/
def evaluate (m : Machine) (e : Expr) : Move :=
  match e with
  | .literal value _ => (.ok (.value value.value), m)
  | .identifier id =>
    match m.world.heap.get id m.env with
    | .error fault => (.error fault, m)
    | .ok v => (.ok (.value v), m)
  | .function f =>
    let (v, m) := m.newClosure f
    (.ok (.value v), m)
  | .call callee arguments span => (.ok (.expression callee), m.push (.callee arguments span m.env))
  | .unary op operand span =>
    if op = .typeof then (.error (.unsupportedOperator op.text span), m)
    else (.ok (.expression operand), m.push (.unaryOperand op span m.env))
  | .binary op left right span =>
    if op = .looseEq ∨ op = .looseNotEq then (.error (.unsupportedOperator op.text span), m)
    else (.ok (.expression left), m.push (.leftOperand op right span m.env))
  | .logical op left right span =>
    match op with
    | .and =>
      (.ok (.expression left), m.pushBranch (.expression right) (.value (.boolean false)) left.span)
    | .or =>
      (.ok (.expression left), m.pushBranch (.value (.boolean true)) (.expression right) left.span)
    | .nullish => (.error (.unsupportedOperator op.text span), m)
  | .conditional test consequent alternate _ =>
    (.ok (.expression test),
      m.pushBranch (.expression consequent) (.expression alternate) test.span)
  | .assignment op target value span =>
    match target.assignee op span with
    | .error fault => (.error fault, m)
    | .ok id => (.ok (.expression value), m.push (.assign id m.env))
  | e => (.error ⟨.unsupported (e.unsupported?.getD "expression"), e.span⟩, m)

/-- Evaluate the argument at a position, or make the call when there is none. -/
def nextArgument (m : Machine) (arguments : List Expr) (next : Nat) (evaluated : List Value)
    (callee : Value) (span : Span) (env : Env) : Move :=
  match arguments[next]? with
  | none => (.ok (.value callee), m.push (.apply callee evaluated.reverse span env))
  | some e =>
    (.ok (.expression e), m.push (.argument arguments (next + 1) evaluated callee span env))

/-- Give a value to a frame that was taken from the stack. -/
def give (m : Machine) (frame : Frame) (v : Value) : Move :=
  match frame with
  | .halt => (.ok (.value v), m.push .halt)
  | .exec s _ => (.ok (.statement s), m)
  | .unaryOperand op span _ => ((op.apply v span).map .value, m)
  | .leftOperand op right span env =>
    (.ok (.expression right), m.push (.rightOperand op v span env))
  | .rightOperand op left span _ => ((op.apply left v span).map .value, m)
  | .declare id isMutable env =>
    (.ok (.value .undefined), m.mapHeap (·.define env id.name v isMutable))
  | .assign id env =>
    match m.onHeap (·.set id v env) with
    | (.error fault, m) => (.error fault, m)
    | (.ok (), m) => (.ok (.value .undefined), m)
  | .callee arguments span env => m.nextArgument arguments 0 [] v span env
  | .argument arguments next evaluated callee span env =>
    m.nextArgument arguments next (v :: evaluated) callee span env
  | .apply callee args span _ => m.call callee args span
  | .branch consequent alternate span _ =>
    match v.condition span with
    | .error fault => (.error fault, m)
    | .ok b => (.ok (if b then consequent else alternate), m)
  | .delimiter => (.ok (.value v), m)

/-- Give a value to the frame on top of the stack, in the scopes that the frame
    keeps. -/
def take (m : Machine) (v : Value) : Move :=
  match m.stack.pop? with
  | none => (.error ⟨.stackExhausted, {}⟩, m)
  | some (frame, stack) =>
    { m with stack, env := frame.env?.getD m.env }.give frame v

/-- One transition. -/
def transition (m : Machine) (c : Control) : Move :=
  match c with
  | .program p => m.enterProgram p
  | .statement s => m.execute s
  | .expression e => m.evaluate e
  | .value v => m.take v

end Machine

end SourceMachine
