import SourceMachine.Primitive.Basic

/-!
# Values

Pairs, closures, captured stacks and scopes live in a heap, and a value holds only
their address there.  Two such values are the same when their addresses are.
-/

namespace SourceMachine

/-- The address of a pair. -/
structure PairId where
  index : Nat
deriving DecidableEq, Repr, Hashable

/-- The address of a closure. -/
structure ClosureId where
  index : Nat
deriving DecidableEq, Repr

/-- The address of a captured stack. -/
structure ContinuationId where
  index : Nat
deriving DecidableEq, Repr

/-- The address of a scope. -/
structure ScopeId where
  index : Nat
deriving DecidableEq, Repr

/-- The scopes that a name is looked for in, innermost first. -/
abbrev Env := List ScopeId

/-- A value of the language.  Two objects of one builtin function differ in their
    stamps. -/
inductive Value where
  | undefined
  | null
  | boolean (value : Bool)
  | number (value : Float)
  | string (text : String)
  | pair (id : PairId)
  | closure (id : ClosureId)
  | builtin (function : Primitive) (stamp : Nat)
  | continuation (id : ContinuationId)
deriving DecidableEq

instance : Inhabited Value := ⟨.undefined⟩

/-- What messages call the type of a value. -/
def Value.typeName : Value → String
  | .undefined => "undefined"
  | .null => "null"
  | .boolean _ => "boolean"
  | .number _ => "number"
  | .string _ => "string"
  | .pair _ => "pair"
  | .closure _ | .builtin .. | .continuation _ => "function"

/-- Whether a value can be called. -/
def Value.isFunction : Value → Bool
  | .closure _ | .builtin .. | .continuation _ => true
  | _ => false

/-- Strict equality.  Numbers are equal as numbers, so that what is not a number
    differs from itself and both zeros are equal; what lives in the heap is equal
    only to itself. -/
def Value.strictEquals : Value → Value → Bool
  | .number x, .number y => x == y
  | v, w => v = w

/-- Whether a value passes a test. -/
def TypeTest.holds : TypeTest → Value → Bool
  | .number, .number _ => true
  | .string, .string _ => true
  | .function, v => v.isFunction
  | .boolean, .boolean _ => true
  | .undefined, .undefined => true
  | .continuation, .continuation _ => true
  | .pair, .pair _ => true
  | .null, .null => true
  | _, _ => false

end SourceMachine
