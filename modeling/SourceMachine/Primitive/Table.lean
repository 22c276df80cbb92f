import SourceMachine.Heap.Scopes
import SourceMachine.Number.Arithmetic

/-!
# The table of builtin names

The names that a global scope starts with, and their values.
-/

namespace SourceMachine

/-- Builtin names and their values. -/
abbrev Table := Named Value

namespace Table

/-- The control operators. -/
def control : List Primitive :=
  [.control .callCc, .control .reset, .control .shift]

/-- Output, tests, and functions on texts. -/
def general : List Primitive :=
  [.native .display, .native .rawDisplay, .native .stringify, .native .error,
    .native (.test .number), .native (.test .string), .native (.test .function),
    .native (.test .boolean), .native (.test .undefined), .native (.test .continuation),
    .native .arityOf, .native .parseInt, .native .charAt, .native .getTime]

/-- Functions on pairs and lists. -/
def pairs : List Primitive :=
  [.native .pair, .native .head, .native .tail, .native .setHead, .native .setTail,
    .native (.test .pair), .native (.test .null), .native .isList, .native .list]

/-- Functions on numbers. -/
def numeric : List Primitive :=
  [.native (.real .abs), .native (.real .floor), .native (.real .ceil), .native (.real .round),
    .native (.real .trunc), .native (.real .sign), .native .min, .native .max, .native .pow,
    .native (.real .sqrt), .native (.real .cbrt), .native .hypot, .native (.real .exp),
    .native (.real .log), .native (.real .log2), .native (.real .log10), .native (.real .sin),
    .native (.real .cos), .native (.real .tan), .native (.real .asin), .native (.real .acos),
    .native (.real .atan), .native .atan2, .native .random]

/-- Values that programs know by name. -/
def generalConstants : Table :=
  [("undefined", .undefined), ("NaN", .number Number.notANumber),
    ("Infinity", .number Number.infinity)]

/-- Numbers that programs know by name. -/
def numericConstants : Table :=
  [("math_PI", .number 3.141592653589793), ("math_E", .number 2.718281828459045),
    ("math_LN2", .number 0.6931471805599453), ("math_LN10", .number 2.302585092994046),
    ("math_SQRT2", .number 1.4142135623730951)]

/-- The objects of builtin functions that every table shares. -/
def ofPrimitives (functions : List Primitive) : Table :=
  functions.map fun f => (f.name, .builtin f 0)

/-- The standard table. -/
def standard : Table :=
  ofPrimitives control ++ ofPrimitives general ++ generalConstants ++ ofPrimitives pairs ++
    numericConstants ++ ofPrimitives numeric

/-- Make every name of a table a constant of the innermost scope. -/
def install (table : Table) (env : Env) (h : Heap) : Heap :=
  table.foldl (fun h (name, value) => h.define env name value false) h

end Table

end SourceMachine
