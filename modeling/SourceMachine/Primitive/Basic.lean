/-!
# Builtin functions

The functions that a program finds in its global scope: three operators on the
stack of pending work, and native functions that turn arguments into a result.
-/

namespace SourceMachine

/-- How many arguments a function takes. -/
inductive Arity where
  | exact (count : Nat)
  | atLeast (count : Nat)
deriving DecidableEq, Repr

/-- Whether a number of arguments is allowed. -/
def Arity.accepts : Arity → Nat → Bool
  | .exact n, count => count = n
  | .atLeast n, count => n ≤ count

/-- The number of arguments that have to be given. -/
def Arity.required : Arity → Nat
  | .exact n | .atLeast n => n

/-- Whether more arguments than the required ones may be given. -/
def Arity.isVariadic : Arity → Bool
  | .exact _ => false
  | .atLeast _ => true

/-- The operators that capture or mark the stack. -/
inductive ControlOp where
  | callCc
  | reset
  | shift
deriving DecidableEq, Repr

/-- The tests of what a value is. -/
inductive TypeTest where
  | number | string | function | boolean | undefined | continuation | pair | null
deriving DecidableEq, Repr

/-- The functions of one number. -/
inductive RealFunction where
  | abs | floor | ceil | round | trunc | sign
  | sqrt | cbrt | exp | log | log2 | log10
  | sin | cos | tan | asin | acos | atan
deriving DecidableEq, Repr

/-- The native functions. -/
inductive Native where
  | display | rawDisplay | stringify | error
  | test (test : TypeTest)
  | arityOf | parseInt | charAt | getTime
  | pair | head | tail | setHead | setTail | isList | list
  | real (function : RealFunction)
  | min | max | pow | hypot | atan2 | random
deriving DecidableEq, Repr

/-- A builtin function. -/
inductive Primitive where
  | control (op : ControlOp)
  | native (function : Native)
deriving DecidableEq, Repr

/-! ## Names -/

/-- The name of an operator on the stack. -/
def ControlOp.name : ControlOp → String
  | .callCc => "call_cc"
  | .reset => "reset"
  | .shift => "shift"

/-- The name of a test. -/
def TypeTest.name : TypeTest → String
  | .number => "is_number"
  | .string => "is_string"
  | .function => "is_function"
  | .boolean => "is_boolean"
  | .undefined => "is_undefined"
  | .continuation => "is_cont"
  | .pair => "is_pair"
  | .null => "is_null"

/-- The name of a function of one number. -/
def RealFunction.name : RealFunction → String
  | .abs => "math_abs"
  | .floor => "math_floor"
  | .ceil => "math_ceil"
  | .round => "math_round"
  | .trunc => "math_trunc"
  | .sign => "math_sign"
  | .sqrt => "math_sqrt"
  | .cbrt => "math_cbrt"
  | .exp => "math_exp"
  | .log => "math_log"
  | .log2 => "math_log2"
  | .log10 => "math_log10"
  | .sin => "math_sin"
  | .cos => "math_cos"
  | .tan => "math_tan"
  | .asin => "math_asin"
  | .acos => "math_acos"
  | .atan => "math_atan"

/-- The name of a native function. -/
def Native.name : Native → String
  | .display => "display"
  | .rawDisplay => "raw_display"
  | .stringify => "stringify"
  | .error => "error"
  | .test t => t.name
  | .arityOf => "arity"
  | .parseInt => "parse_int"
  | .charAt => "char_at"
  | .getTime => "get_time"
  | .pair => "pair"
  | .head => "head"
  | .tail => "tail"
  | .setHead => "set_head"
  | .setTail => "set_tail"
  | .isList => "is_list"
  | .list => "list"
  | .real f => f.name
  | .min => "math_min"
  | .max => "math_max"
  | .pow => "math_pow"
  | .hypot => "math_hypot"
  | .atan2 => "math_atan2"
  | .random => "math_random"

/-- The name of a builtin function. -/
def Primitive.name : Primitive → String
  | .control op => op.name
  | .native f => f.name

/-! ## Arities -/

/-- How many arguments a native function takes. -/
def Native.arity : Native → Arity
  | .display | .rawDisplay | .error => .atLeast 1
  | .list | .min | .max | .hypot => .atLeast 0
  | .getTime | .random => .exact 0
  | .parseInt | .charAt | .pair | .setHead | .setTail | .pow | .atan2 => .exact 2
  | .stringify | .test _ | .arityOf | .head | .tail | .isList | .real _ => .exact 1

/-- How many arguments a builtin function takes. -/
def Primitive.arity : Primitive → Arity
  | .control _ => .exact 1
  | .native f => f.arity

end SourceMachine
