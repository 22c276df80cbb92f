import SourceMachine.Machine.Basic
import SourceMachine.Primitive.Native

/-!
# Calls

A closure runs its body in a new scope, where a hidden name holds the stack of the
caller: returning is resuming that stack.  The control operators capture the stack
or mark it, and then call their argument.
-/

namespace SourceMachine

/-- The hidden name of the stack that a `return` resumes.  It is no name of the
    language. -/
def returnPoint : String := "*return*"

/-- The fault of a wrong number of arguments. -/
def Arity.check (arity : Arity) (got : Nat) (span : Span) : Except Fault Unit :=
  if arity.accepts got then .ok ()
  else .error ⟨.argumentCount arity.required got arity.isVariadic, span⟩

/-- Give the parameters of a function their arguments.  A rest parameter takes a
    list of all that are left. -/
def Heap.bindParams (h : Heap) (env : Env) : List Param → List Value → Heap
  | [], _ => h
  | p :: params, args =>
    if p.isRest then
      let (rest, h) := h.newList args
      (h.define env p.id.name rest true).bindParams env params []
    else
      (h.define env p.id.name (args.headD .undefined) true).bindParams env params args.tail

namespace Machine

/-- Make a call the next thing to do. -/
def callNext (m : Machine) (callee : Value) (args : List Value) (span : Span) : Move :=
  (.ok (.value callee), m.push (.apply callee args span m.env))

/-- Capture a stack together with the current scopes. -/
def capture (m : Machine) (kind : CaptureKind) (stack : Stack) : Value × Machine :=
  m.onHeap (·.newContinuation ⟨kind, m.env, stack⟩)

/-- Call a closure. -/
def callClosure (m : Machine) (c : Closure) (args : List Value) : Move :=
  let caller : Captured := ⟨.undelimited, m.env, m.stack⟩
  let (env, m) := m.onHeap fun h =>
    let (env, h) := h.newScope c.function.displayName c.env
    let h := h.bindParams env c.function.params args
    let (k, h) := h.newContinuation caller
    (env, h.define env returnPoint k false)
  (.ok (.statement (.block c.function.body)), { m with env })

/-- Call a control operator with its argument. -/
def callControl (m : Machine) (op : ControlOp) (f : Value) (span : Span) : Move :=
  match op with
  | .callCc =>
    let (k, m) := m.capture .undelimited m.stack
    m.callNext f [k] span
  | .reset => (m.push .delimiter).callNext f [] span
  | .shift =>
    match m.stack.split? with
    | none => (.error ⟨.shiftWithoutReset, span⟩, m)
    | some (piece, below) =>
      let (k, m) := { m with stack := below }.capture .delimited piece
      m.callNext f [k] span

/-- Call a native function. -/
def callNative (m : Machine) (f : Native) (args : List Value) (span : Span) : Move :=
  match f.call args m.world with
  | (.ok v, world) => (.ok (.value v), { m with world })
  | (.error complaint, world) =>
    (.error ((Fault.ofNative f.name complaint).at span), { m with world })

/-- Go on with a captured stack. -/
def resume (m : Machine) (k : Captured) (v : Value) : Move :=
  let stack :=
    match k.kind with
    | .undelimited => k.stack
    | .delimited => m.stack.splice k.stack
  (.ok (.value v), { m with env := k.env, stack })

/-- Call a value. -/
def call (m : Machine) (f : Value) (args : List Value) (span : Span) : Move :=
  match m.world.heap.callee? f with
  | none => (.error ⟨.notCallable (f.text m.world.heap), span⟩, m)
  | some callee =>
    match callee.arity.check args.length span with
    | .error fault => (.error fault, m)
    | .ok () =>
      match callee with
      | .closure c => m.callClosure c args
      | .builtin (.control op) => m.callControl op (argument args 0) span
      | .builtin (.native f) => m.callNative f args span
      | .continuation k => m.resume k (argument args 0)

end Machine

end SourceMachine
