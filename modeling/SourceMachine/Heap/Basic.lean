import SourceMachine.Machine.Stack
import SourceMachine.Program.Signature
import SourceMachine.Text.Named

/-!
# The heap

What has identity or can change: scopes and their bindings, pairs, closures and
captured stacks.  Objects are only ever added, so an address once given out keeps
its meaning.
-/

namespace SourceMachine

/-- What a name is bound to. -/
inductive Slot where
  /-- The name is declared, but its declaration was not reached yet. -/
  | unassigned
  | assigned (value : Value) (isMutable : Bool)
deriving DecidableEq

/-- The bindings of a block, a call, a program, or of the builtin functions, in the
    order of their declaration. -/
structure Scope where
  label : String
  bindings : Named Slot
deriving DecidableEq

/-- A function together with the scopes it was made in. -/
structure Closure where
  function : Function
  env : Env

/-- All objects. -/
structure Heap where
  scopes : Array Scope := #[]
  pairs : Array (Value × Value) := #[]
  closures : Array Closure := #[]
  continuations : Array Captured := #[]
  /-- The stamp of the next object of a builtin function.  The first stamp is that
      of the objects which every program finds in its global scope. -/
  nextStamp : Nat := 1

namespace Heap

/-! ## Making objects -/

/-- Make a scope without bindings inside of others. -/
def newScope (h : Heap) (label : String) (outer : Env) : Env × Heap :=
  (⟨h.scopes.size⟩ :: outer, { h with scopes := h.scopes.push ⟨label, []⟩ })

/-- Make a pair. -/
def newPair (h : Heap) (head tail : Value) : Value × Heap :=
  (.pair ⟨h.pairs.size⟩, { h with pairs := h.pairs.push (head, tail) })

/-- Make a closure. -/
def newClosure (h : Heap) (c : Closure) : Value × Heap :=
  (.closure ⟨h.closures.size⟩, { h with closures := h.closures.push c })

/-- Make a value of a captured stack. -/
def newContinuation (h : Heap) (k : Captured) : Value × Heap :=
  (.continuation ⟨h.continuations.size⟩, { h with continuations := h.continuations.push k })

/-- Make an object of a builtin function. -/
def newBuiltin (h : Heap) (f : Primitive) : Value × Heap :=
  (.builtin f h.nextStamp, { h with nextStamp := h.nextStamp + 1 })

/-! ## Looking at objects -/

/-- The two parts of a pair. -/
def pair? (h : Heap) (id : PairId) : Option (Value × Value) :=
  h.pairs[id.index]?

/-- A closure by its address. -/
def closure? (h : Heap) (id : ClosureId) : Option Closure :=
  h.closures[id.index]?

/-- A captured stack by its address. -/
def continuation? (h : Heap) (id : ContinuationId) : Option Captured :=
  h.continuations[id.index]?

/-- A scope by its address. -/
def scope? (h : Heap) (id : ScopeId) : Option Scope :=
  h.scopes[id.index]?

end Heap

end SourceMachine
