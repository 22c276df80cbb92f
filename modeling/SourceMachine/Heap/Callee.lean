import SourceMachine.Heap.Basic

/-!
# What can be called

A value that can be called leads to a closure, a builtin function, or a captured
stack.
-/

namespace SourceMachine

/-- Something that can be called. -/
inductive Callee where
  | closure (closure : Closure)
  | builtin (function : Primitive)
  | continuation (captured : Captured)

/-- What a value leads to, if it can be called. -/
def Heap.callee? (h : Heap) : Value → Option Callee
  | .closure id => (h.closure? id).map .closure
  | .builtin f _ => some (.builtin f)
  | .continuation id => (h.continuation? id).map .continuation
  | _ => none

/-- How many arguments a call takes.  Resuming a stack takes the value to go on
    with. -/
def Callee.arity : Callee → Arity
  | .closure c => c.function.arity
  | .builtin f => f.arity
  | .continuation _ => .exact 1

end SourceMachine
