import SourceMachine.Fault
import SourceMachine.Heap.Callee
import SourceMachine.Number.CubeRoot
import SourceMachine.Number.Logarithm
import SourceMachine.Number.Numeral
import SourceMachine.Primitive.Effect
import SourceMachine.Text.Blank
import SourceMachine.Value.Text

/-!
# Native functions

A native function looks at its arguments and at the world, and either complains or
says what is to happen.  It counts on no number of arguments: one that is missing
is `undefined`.

The native functions are those of the standard table.  A host may give names of its
own to them and to other values; functions that a host writes itself, which could do
anything to a machine, are left out.
-/

namespace SourceMachine

/-! ## Arguments -/

/-- The argument at a position. -/
def argument (args : List Value) (index : Nat) : Value :=
  args.getD index .undefined

/-- The argument at a position, which must be a number. -/
def numberArgument (args : List Value) (index : Nat) : Except Complaint Float :=
  match argument args index with
  | .number x => .ok x
  | v => .error (.expectedNumber index v.typeName)

/-- The argument at a position, which must be a string. -/
def stringArgument (args : List Value) (index : Nat) : Except Complaint String :=
  match argument args index with
  | .string s => .ok s
  | v => .error (.expectedString index v.typeName)

/-- The first argument, which must be a pair. -/
def pairArgument (h : Heap) (args : List Value) : Except Complaint (PairId × Value × Value) :=
  match argument args 0 with
  | .pair id =>
    match h.pair? id with
    | some (head, tail) => .ok (id, head, tail)
    | none => .error (.expectedPair ((argument args 0).text h))
  | v => .error (.expectedPair (v.text h))

/-- All arguments from a position on, which must be numbers. -/
def numbersFrom (index : Nat) : List Value → Except Complaint (List Float)
  | [] => .ok []
  | .number x :: vs => (numbersFrom (index + 1) vs).map (x :: ·)
  | v :: _ => .error (.expectedNumber index v.typeName)

/-- A text after the label that a second argument gives. -/
def labelled (args : List Value) (text : String) : Except Complaint String :=
  if args.length < 2 then .ok text
  else (stringArgument args 1).map fun label => label ++ " " ++ text

/-! ## Results -/

/-- The value of a function of one number. -/
def RealFunction.apply : RealFunction → Float → Float
  | .abs => Float.abs
  | .floor => Float.floor
  | .ceil => Float.ceil
  | .round => Number.roundHalfUp
  | .trunc => Number.truncate
  | .sign => Number.sign
  | .sqrt => Float.sqrt
  | .cbrt => Number.cubeRoot
  | .exp => Float.exp
  | .log => Float.log
  | .log2 => Float.log2
  | .log10 => Number.decimalLog
  | .sin => Float.sin
  | .cos => Float.cos
  | .tan => Float.tan
  | .asin => Float.asin
  | .acos => Float.acos
  | .atan => Float.atan

/-- The number that one of two numbers is chosen as, over a whole list.  What is
    not a number wins. -/
def chosen (choose : Float → Float → Float) (start : Float) (xs : List Float) : Float :=
  if xs.any Float.isNaN then Number.notANumber else xs.foldl choose start

/-- The length of the vector of some numbers.  The sum starts at the zero that
    leaves every number as it is, which is the negative one. -/
def vectorLength (xs : List Float) : Float :=
  (xs.foldl (fun sum x => sum + x * x) (-0.0)).sqrt

/-- The number that a text spells in a base given as a float. -/
def numeralValue (text : String) (radix : Float) : Except Complaint Float :=
  if Number.isWhole radix && 2 ≤ radix && radix ≤ 36 then
    .ok (Number.ofNumeral radix.toUInt64.toNat (trimmed text.toList))
  else .error .badRadix

/-- The character at a position given as a float, as a string. -/
def characterAt (text : String) (index : Float) : Except Complaint Value :=
  if Number.isWhole index && 0 ≤ index then
    .ok (match text.toList[index.toUInt64.toNat]? with
      | some c => .string (String.singleton c)
      | none => .undefined)
  else .error .badIndex

/-- How many arguments a function value needs. -/
def requiredCount (h : Heap) (v : Value) : Except Complaint Float :=
  match h.callee? v with
  | some callee => .ok (Number.ofNat callee.arity.required)
  | none => .error (.expectedFunction v.typeName)

/-! ## Calls -/

/-- What a call of a native function comes to. -/
def Native.effect (f : Native) (args : List Value) (w : World) : Except Complaint Effect :=
  let first := argument args 0
  let second := argument args 1
  let ofNumber (x : Float) : Effect := .give (.number x)
  match f with
  | .display => (labelled args (first.text w.heap)).map (.write · first)
  | .rawDisplay => (labelled args (first.rawText w.heap)).map (.write · first)
  | .stringify => .ok (.give (.string (first.text w.heap)))
  | .error =>
    match labelled args (first.rawText w.heap) with
    | .ok text => .error (.raised text)
    | .error complaint => .error complaint
  | .test t => .ok (.give (.boolean (t.holds first)))
  | .arityOf => (requiredCount w.heap first).map ofNumber
  | .parseInt => do
    let text ← stringArgument args 0
    let radix ← numberArgument args 1
    (numeralValue text radix).map ofNumber
  | .charAt => do
    let text ← stringArgument args 0
    let index ← numberArgument args 1
    (characterAt text index).map .give
  | .getTime => .ok (ofNumber (Number.ofInt w.clock))
  | .pair => .ok (.makePair first second)
  | .head => (pairArgument w.heap args).map fun p => .give p.2.1
  | .tail => (pairArgument w.heap args).map fun p => .give p.2.2
  | .setHead => (pairArgument w.heap args).map fun p => .setHead p.1 second
  | .setTail => (pairArgument w.heap args).map fun p => .setTail p.1 second
  | .isList => .ok (.give (.boolean (w.heap.isList first)))
  | .list => .ok (.makeList args)
  | .real g => (numberArgument args 0).map fun x => ofNumber (g.apply x)
  | .min => (numbersFrom 0 args).map fun xs => ofNumber (chosen Number.smaller Number.infinity xs)
  | .max => (numbersFrom 0 args).map fun xs => ofNumber (chosen Number.larger (-Number.infinity) xs)
  | .pow => do
    let base ← numberArgument args 0
    let exponent ← numberArgument args 1
    .ok (ofNumber (base.pow exponent))
  | .hypot => (numbersFrom 0 args).map fun xs => ofNumber (vectorLength xs)
  | .atan2 => do
    let y ← numberArgument args 0
    let x ← numberArgument args 1
    .ok (ofNumber (y.atan2 x))
  | .random => .ok .draw

/-- Call a native function.  A complaint leaves the world as it is. -/
def Native.call (f : Native) (args : List Value) (w : World) : Except Complaint Value × World :=
  match f.effect args w with
  | .ok e =>
    let (v, w) := e.perform w
    (.ok v, w)
  | .error complaint => (.error complaint, w)

end SourceMachine
