import SourceMachine.Program.Refusal

/-!
# Faults

A program that cannot go on stops with a fault: a cause and the place in the text
that is to blame.  `Fault.message` puts every cause into words.
-/

namespace SourceMachine

/-- What a native function objects to. -/
inductive Complaint where
  | expectedNumber (index : Nat) (got : String)
  | expectedString (index : Nat) (got : String)
  | expectedPair (got : String)
  | expectedFunction (got : String)
  | badRadix
  | badIndex
  /-- The program itself asked to stop. -/
  | raised (text : String)
deriving DecidableEq, Repr

/-- A complaint in words. -/
def Complaint.text : Complaint → String
  | .expectedNumber index got =>
    "expected a number as argument " ++ toString (index + 1) ++ ", got " ++ got
  | .expectedString index got =>
    "expected a string as argument " ++ toString (index + 1) ++ ", got " ++ got
  | .expectedPair got => "expected a pair, got " ++ got
  | .expectedFunction got => "expected a function, got " ++ got
  | .badRadix => "radix must be an integer between 2 and 36"
  | .badIndex => "index must be a non-negative integer"
  | .raised text => text

/-- Why a program stops. -/
inductive Fault.Cause where
  | redeclared (name : String) (isMutable : Bool)
  | unassigned (name : String)
  | undeclared (name : String)
  | constant (name : String)
  | argumentCount (expected got : Nat) (variadic : Bool)
  | notCallable (value : String)
  | stackExhausted
  | shiftWithoutReset
  | mismatch (expected position got : String)
  | unsupported (construct : String)
  | returnOutsideFunction
  | builtin (name : String) (complaint : Complaint)
deriving DecidableEq, Repr

/-- A cause and the place to blame. -/
structure Fault where
  cause : Fault.Cause
  span : Span
deriving DecidableEq, Repr

/-- A cause in words. -/
def Fault.Cause.text : Fault.Cause → String
  | .redeclared name isMutable =>
    "Cannot redeclare " ++ (if isMutable then "variable " else "constant ") ++ name ++ "."
  | .unassigned name => "Name " ++ name ++ " declared later in current scope but not yet assigned"
  | .undeclared name => "Name " ++ name ++ " not declared."
  | .constant name => "Cannot assign new value to constant " ++ name ++ "."
  | .argumentCount expected got variadic =>
    "Expected " ++ toString expected ++ (if variadic then " or more" else "") ++
      " arguments, but got " ++ toString got ++ "."
  | .notCallable value => "Calling non-function value " ++ value ++ "."
  | .stackExhausted => "Continuation stack exhausted unexpectedly."
  | .shiftWithoutReset => "shift called without an enclosing reset."
  | .mismatch expected position got => "Expected " ++ expected ++ position ++ ", got " ++ got ++ "."
  | .unsupported construct => construct ++ " is not supported."
  | .returnOutsideFunction => "Illegal return statement outside of a function."
  | .builtin name complaint => name ++ ": " ++ complaint.text

/-- A fault in words. -/
def Fault.message (f : Fault) : String :=
  "Line " ++ toString f.span.line ++ ": " ++ f.cause.text

/-- A fault of a native function, which does not know where it was called. -/
def Fault.ofNative (name : String) (complaint : Complaint) : Fault :=
  ⟨.builtin name complaint, {}⟩

/-- Put the blame for a fault of a native function on the call; other faults know
    their place. -/
def Fault.at (f : Fault) (call : Span) : Fault :=
  match f.cause with
  | .builtin .. => { f with span := call }
  | _ => f

/-- Why a run ends without a value. -/
inductive Failure where
  | refusal (refusal : Refusal)
  | fault (fault : Fault)
  /-- The stack grew past its limit, to this depth. -/
  | overflow (depth : Nat)

/-- A failure in words. -/
def Failure.message : Failure → String
  | .refusal r => r.message
  | .fault f => f.message
  | .overflow depth =>
    "Maximum call stack size exceeded (stack depth " ++ toString depth ++ ")"

end SourceMachine
