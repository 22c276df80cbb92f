import SourceMachine.Fault
import SourceMachine.Number.Arithmetic
import SourceMachine.Value.Basic

/-!
# Operators on values

Operands are looked at from left to right, and the first one of a wrong type is
the one that the fault names.  Nothing is converted.
-/

namespace SourceMachine

/-- Where an operand of a wrong type stands. -/
inductive OperandPlace where
  | only
  | left
  | right
  | condition
deriving DecidableEq, Repr

/-- The place in the words of a message. -/
def OperandPlace.text : OperandPlace → String
  | .only => ""
  | .left => " on left hand side of operation"
  | .right => " on right hand side of operation"
  | .condition => " as condition"

/-- The fault of an operand of a wrong type. -/
def Fault.mismatch (expected : String) (place : OperandPlace) (got : Value) (span : Span) : Fault :=
  ⟨.mismatch expected place.text got.typeName, span⟩

/-- The truth of a value. -/
def Value.asBoolean (place : OperandPlace) (span : Span) : Value → Except Fault Bool
  | .boolean b => .ok b
  | v => .error (.mismatch "boolean" place v span)

/-- The number of a value. -/
def Value.asNumber (place : OperandPlace) (span : Span) : Value → Except Fault Float
  | .number x => .ok x
  | v => .error (.mismatch "number" place v span)

/-- The truth of a value that decides between two ways to go on. -/
def Value.condition (v : Value) (span : Span) : Except Fault Bool :=
  v.asBoolean .condition span

/-- The fault of using an operator that is read but never evaluated. -/
def Fault.unsupportedOperator (text : String) (span : Span) : Fault :=
  ⟨.unsupported (text ++ " operator"), span⟩

/-- An operator applied to its operand. -/
def UnaryOp.apply (op : UnaryOp) (v : Value) (span : Span) : Except Fault Value :=
  match op with
  | .not => (v.asBoolean .only span).map fun b => .boolean !b
  | .minus => (v.asNumber .only span).map fun x => .number (-x)
  | .plus => (v.asNumber .only span).map .number
  | .typeof => .error (.unsupportedOperator op.text span)

/-- Two operands of one type that can be added and compared. -/
inductive Comparable where
  | numbers (x y : Float)
  | strings (s t : String)

/-- Two operands as numbers or as strings.  The left one decides which. -/
def Comparable.of (left right : Value) (span : Span) : Except Fault Comparable :=
  match left, right with
  | .number x, .number y => .ok (.numbers x y)
  | .string s, .string t => .ok (.strings s t)
  | .number _, _ => .error (.mismatch "number" .right right span)
  | .string _, _ => .error (.mismatch "string" .right right span)
  | _, _ => .error (.mismatch "string or number" .left left span)

/-- The sum of two numbers, or two strings joined. -/
def Comparable.sum : Comparable → Value
  | .numbers x y => .number (x + y)
  | .strings s t => .string (s ++ t)

/-- Whether the first operand is smaller.  Strings are ordered by code points. -/
def Comparable.less : Comparable → Bool
  | .numbers x y => x < y
  | .strings s t => s < t

/-- Whether the first operand is smaller or equal. -/
def Comparable.lessEq : Comparable → Bool
  | .numbers x y => x ≤ y
  | .strings s t => !(t < s)

/-- The operands the other way round. -/
def Comparable.swap : Comparable → Comparable
  | .numbers x y => .numbers y x
  | .strings s t => .strings t s

/-- Two operands as numbers. -/
def arithmetic (f : Float → Float → Float) (left right : Value) (span : Span) :
    Except Fault Value :=
  match left.asNumber .left span with
  | .error fault => .error fault
  | .ok x => (right.asNumber .right span).map fun y => .number (f x y)

/-- Two operands that can be compared. -/
def comparison (f : Comparable → Bool) (left right : Value) (span : Span) : Except Fault Value :=
  (Comparable.of left right span).map fun c => .boolean (f c)

/-- An operator applied to its operands. -/
def BinaryOp.apply (op : BinaryOp) (left right : Value) (span : Span) : Except Fault Value :=
  match op with
  | .add => (Comparable.of left right span).map Comparable.sum
  | .sub => arithmetic (· - ·) left right span
  | .mul => arithmetic (· * ·) left right span
  | .div => arithmetic (· / ·) left right span
  | .rem => arithmetic Number.remainder left right span
  | .lt => comparison Comparable.less left right span
  | .le => comparison Comparable.lessEq left right span
  | .gt => comparison (fun c => c.swap.less) left right span
  | .ge => comparison (fun c => c.swap.lessEq) left right span
  | .strictEq => .ok (.boolean (left.strictEquals right))
  | .strictNotEq => .ok (.boolean !(left.strictEquals right))
  | .looseEq | .looseNotEq => .error (.unsupportedOperator op.text span)

end SourceMachine
