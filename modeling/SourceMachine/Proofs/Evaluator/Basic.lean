import Mathlib
import SourceMachine.Machine.Transition

/-!
# A direct evaluator

The language once more, without frames and without a stack: a phrase is evaluated by
evaluating its parts, from left to right and each of them once, and `return` leaves the
innermost call.  Scopes, pairs, closures and the console are those of the machine, and so
are the operators on values and the native functions.

The evaluator has no rule for the control operators; applying one ends the evaluation
(`Exit.control`).  A captured stack that was there before can still be applied.  One that
was cut out at a `reset` is evaluated frame by frame where it is applied; a whole one
takes the place of everything that is still to do, up to the program (`Exit.jumped`).

A `return` outside of the calls of this evaluation, which is one of the program itself or
of a captured frame, gives its value to what the hidden name is bound to.

As evaluation need not end, it is bounded by an amount of fuel.  Evaluation with more
fuel is built on evaluation with less (`Evaluators.ofFuel`), as `Level.ofDepth` is.
-/

namespace SourceMachine

/-- The ways in which evaluation ends without a value. -/
inductive Exit where
  | fault (fault : Fault)
  /-- The innermost call ends with a value. -/
  | returned (value : Value)
  /-- A captured stack takes the place of what is still to do. -/
  | jumped (captured : Captured) (value : Value)
  /-- A control operator is applied. -/
  | control

/-- Evaluation changes the world, and may end without a value or run out of fuel. -/
abbrev Eval := ExceptT Exit (StateT World Option)

namespace Eval

/-- There is no fuel left. -/
def outOfFuel {α : Type} : Eval α :=
  fun _ => none

/-- A result that may be a fault. -/
def ofExcept {α : Type} : Except Fault α → Eval α
  | .ok a => pure a
  | .error fault => throw (.fault fault)

/-- Look at the heap. -/
def heap : Eval Heap :=
  return (← get).heap

/-- Work on the heap. -/
def onHeap {α : Type} (f : Heap → α × Heap) : Eval α :=
  modifyGet fun w => ((f w.heap).1, { w with heap := (f w.heap).2 })

/-- Change the heap. -/
def mapHeap (f : Heap → Heap) : Eval Unit :=
  modify fun w => { w with heap := f w.heap }

/-- A call ends where its body returns. -/
def catchReturn (body : Eval Value) : Eval Value :=
  tryCatch body fun
    | .returned v => pure v
    | exit => throw exit

section

variable {α β : Type} (w : World)

theorem bind_apply (x : Eval α) (f : α → Eval β) : (x >>= f) w =
      match x w with
      | none => none
      | some (.ok a, w') => f a w'
      | some (.error exit, w') => some (.error exit, w') := by
  show (x w).bind _ = _
  rcases x w with _ | ⟨_ | _, _⟩ <;> rfl

theorem heap_bind (f : Heap → Eval β) : (heap >>= f) w = f w.heap w := rfl

theorem onHeap_bind (g : Heap → α × Heap) (f : α → Eval β) :
    (onHeap g >>= f) w = f (g w.heap).1 { w with heap := (g w.heap).2 } := rfl

theorem mapHeap_bind (g : Heap → Heap) (f : Unit → Eval β) :
    (mapHeap g >>= f) w = f () { w with heap := g w.heap } := rfl

theorem modifyGet_bind (g : World → α × World) (f : α → Eval β) :
    ((modifyGet g : Eval α) >>= f) w = f (g w).1 (g w).2 := rfl

theorem catchReturn_apply (body : Eval Value) : catchReturn body w =
      match body w with
      | some (.error (.returned v), w') => some (.ok v, w')
      | ended => ended := by
  show (body w).bind _ = _
  rcases body w with _ | ⟨exit | v, w'⟩
  · rfl
  · cases exit <;> rfl
  · rfl

end

end Eval

/-- The evaluators that others are built on.  A statement is evaluated inside of a call of
    this evaluation or outside of all of them. -/
structure Evaluators where
  statement : (inside : Bool) → Env → Stmt → Eval Value
  expression : Env → Expr → Eval Value
  call : Value → List Value → Span → Eval Value

namespace Evaluate

open Eval

variable (below : Evaluators)

/-- Statements one after the other.  Their value is that of the last one. -/
def inOrder (inside : Bool) (env : Env) : List Stmt → Value → Eval Value
  | [], v => pure v
  | s :: rest, _ => do
    let v ← below.statement inside env s
    inOrder inside env rest v

/-- A body in a scope of its own, in which its names are declared first. -/
def body (inside : Bool) (label : String) (outer : Env) (stmts : List Stmt) : Eval Value := do
  let env ← onHeap (·.newScope label outer)
  let declared ← onHeap (·.hoist env stmts)
  ofExcept declared
  inOrder below inside env stmts .undefined

/-- A declaration: the name must not have a value yet, and gets one. -/
def declaration (env : Env) (id : Identifier) (isMutable : Bool) (init : Eval Value) :
    Eval Value := do
  let h ← heap
  ofExcept (h.checkUnassigned env id isMutable)
  let v ← init
  mapHeap (·.define env id.name v isMutable)
  return .undefined

/-- Make a closure. -/
def closure (env : Env) (f : Function) : Eval Value :=
  onHeap (·.newClosure ⟨f, env⟩)

/-- A statement. -/
def statement (inside : Bool) (env : Env) (s : Stmt) : Eval Value :=
  match s with
  | .declaration kind id init _ => declaration env id kind.isMutable (below.expression env init)
  | .function f =>
    match f.id with
    | none => throw (.fault ⟨.unsupported "anonymous function declaration", f.span⟩)
    | some id => declaration env id false (closure env f)
  | .block b => body below inside "blockEnvironment" env b.body
  | .conditional test consequent alternate _ => do
    let v ← below.expression env test
    let decided ← ofExcept (v.condition test.span)
    if decided then below.statement inside env consequent
    else alternate.elim (pure .undefined) (below.statement inside env)
  | .returns argument span => do
    let value := argument.elim (pure .undefined) (below.expression env)
    if inside then
      let v ← value
      throw (.returned v)
    else
      let h ← heap
      match h.lookup? returnPoint env with
      | none => throw (.fault ⟨.returnOutsideFunction, span⟩)
      | some k => do
        let v ← value
        below.call k [v] span
  | .expression e _ => below.expression env e
  | s => throw (.fault ⟨.unsupported (s.unsupported?.getD "statement"), s.span⟩)

/-- Arguments from left to right. -/
def arguments (env : Env) : List Expr → Eval (List Value)
  | [] => pure []
  | e :: rest => do
    let v ← below.expression env e
    let vs ← arguments env rest
    return v :: vs

/-- An expression. -/
def expression (env : Env) (e : Expr) : Eval Value :=
  match e with
  | .literal value _ => pure value.value
  | .identifier id => do
    let h ← heap
    ofExcept (h.get id env)
  | .function f => closure env f
  | .call callee args span => do
    let f ← below.expression env callee
    let vs ← arguments below env args
    below.call f vs span
  | .unary op operand span =>
    if op = .typeof then throw (.fault (.unsupportedOperator op.text span))
    else do
      let v ← below.expression env operand
      ofExcept (op.apply v span)
  | .binary op left right span =>
    if op = .looseEq ∨ op = .looseNotEq then throw (.fault (.unsupportedOperator op.text span))
    else do
      let l ← below.expression env left
      let r ← below.expression env right
      ofExcept (op.apply l r span)
  | .logical .and left right _ => do
    let v ← below.expression env left
    let decided ← ofExcept (v.condition left.span)
    if decided then below.expression env right else pure (.boolean false)
  | .logical .or left right _ => do
    let v ← below.expression env left
    let decided ← ofExcept (v.condition left.span)
    if decided then pure (.boolean true) else below.expression env right
  | .logical .nullish _ _ span =>
    throw (.fault (.unsupportedOperator LogicalOp.nullish.text span))
  | .conditional test consequent alternate _ => do
    let v ← below.expression env test
    let decided ← ofExcept (v.condition test.span)
    if decided then below.expression env consequent else below.expression env alternate
  | .assignment op target value span => do
    let id ← ofExcept (target.assignee op span)
    let v ← below.expression env value
    let assigned ← onHeap (·.set id v env)
    ofExcept assigned
    return .undefined
  | e => throw (.fault ⟨.unsupported (e.unsupported?.getD "expression"), e.span⟩)

/-! ## Captured frames -/

/-- What a frame goes on with. -/
def control (env : Env) : Control → Eval Value
  | .program _ => outOfFuel
  | .statement s => below.statement false env s
  | .expression e => below.expression env e
  | .value v => pure v

/-- What a captured frame does with a value. -/
def frame (v : Value) : Frame → Eval Value
  | .halt | .delimiter => pure v
  | .exec s env => below.statement false env s
  | .unaryOperand op span _ => ofExcept (op.apply v span)
  | .leftOperand op right span env => do
    let r ← below.expression env right
    ofExcept (op.apply v r span)
  | .rightOperand op left span _ => ofExcept (op.apply left v span)
  | .declare id isMutable env => do
    mapHeap (·.define env id.name v isMutable)
    return .undefined
  | .assign id env => do
    let assigned ← onHeap (·.set id v env)
    ofExcept assigned
    return .undefined
  | .callee args span env => do
    let vs ← arguments below env args
    below.call v vs span
  | .argument args next evaluated f span env => do
    let vs ← arguments below env (args.drop next)
    below.call f (evaluated.reverse ++ v :: vs) span
  | .apply f args span _ => below.call f args span
  | .branch consequent alternate span env => do
    let decided ← ofExcept (v.condition span)
    control below env (if decided then consequent else alternate)

/-- Captured frames one after the other, each with the value of the one before. -/
def frames : List Frame → Value → Eval Value
  | [], v => pure v
  | f :: rest, v => do
    let v ← frame below v f
    frames rest v

/-! ## Calls -/

/-- A call of a closure: the body in a scope with the parameters. -/
def callClosure (c : Closure) (args : List Value) : Eval Value := do
  let env ← onHeap (·.newScope c.function.displayName c.env)
  mapHeap (·.bindParams env c.function.params args)
  catchReturn (below.statement true env (.block c.function.body))

/-- A call of a native function. -/
def callNative (f : Native) (args : List Value) (span : Span) : Eval Value := do
  let result ← modifyGet (f.call args)
  match result with
  | .ok v => pure v
  | .error complaint => throw (.fault ((Fault.ofNative f.name complaint).at span))

/-- Go on with a captured stack. -/
def resume (k : Captured) (v : Value) : Eval Value :=
  match k.kind with
  | .undelimited => throw (.jumped k v)
  | .delimited => frames below k.stack.frames v

/-- A call of a value. -/
def call (f : Value) (args : List Value) (span : Span) : Eval Value := do
  let h ← heap
  match h.callee? f with
  | none => throw (.fault ⟨.notCallable (f.text h), span⟩)
  | some callee =>
    ofExcept (callee.arity.check args.length span)
    match callee with
    | .closure c => callClosure below c args
    | .builtin (.control _) => throw .control
    | .builtin (.native f) => callNative f args span
    | .continuation k => resume below k (argument args 0)

/-! ## Programs -/

/-- Follow the jumps of an evaluation to whole stacks, at most so many of them. -/
def landed : (jumps : Nat) → Eval Value → Eval Value
  | 0, _ => outOfFuel
  | jumps + 1, x =>
    tryCatch x fun
      | .jumped k v => landed jumps (frames below k.stack.frames v)
      | exit => throw exit

theorem landed_succ_apply (jumps : Nat) (x : Eval Value) (w : World) :
    landed below (jumps + 1) x w =
      match x w with
      | some (.error (.jumped k v), w') => landed below jumps (frames below k.stack.frames v) w'
      | ended => ended := by
  show (x w).bind _ = _
  rcases x w with _ | ⟨exit | v, w'⟩
  · rfl
  · cases exit <;> rfl
  · rfl

end Evaluate

/-- Evaluation with an amount of fuel. -/
def Evaluators.ofFuel : (fuel : Nat) → Evaluators
  | 0 => ⟨fun _ _ _ => Eval.outOfFuel, fun _ _ => Eval.outOfFuel, fun _ _ _ => Eval.outOfFuel⟩
  | fuel + 1 =>
    let below := Evaluators.ofFuel fuel
    ⟨Evaluate.statement below, Evaluate.expression below, Evaluate.call below⟩

/-- Evaluate a program in a scope of its own inside of others. -/
def Program.evaluate (p : Program) (fuel : Nat) (outer : Env) : Eval Value :=
  let below := Evaluators.ofFuel fuel
  Evaluate.landed below fuel (Evaluate.body below false "programEnvironment" outer p.body)

end SourceMachine
