import SourceMachine.Primitive.Basic
import SourceMachine.Program.Basic

/-!
# Signatures

How many arguments a function of a program takes, and the name under which it is
shown: its own name, or else its parameters.
-/

namespace SourceMachine

/-- How many arguments a function takes.  Its rest parameter needs none. -/
def Function.arity (f : Function) : Arity :=
  match f.params.getLast? with
  | some p => if p.isRest then .atLeast (f.params.length - 1) else .exact f.params.length
  | none => .exact 0

/-- A parameter as it is written. -/
def Param.text (p : Param) : String :=
  if p.isRest then "..." ++ p.id.name else p.id.name

/-- The parameters of a function, separated by commas. -/
def Function.paramsText (f : Function) : String :=
  ", ".intercalate (f.params.map Param.text)

/-- The name under which a function is shown. -/
def Function.displayName (f : Function) : String :=
  match f.id, f.isArrow, f.params with
  | some id, _, _ => id.name
  | none, true, [⟨id, false⟩] => id.name ++ " => ..."
  | none, true, _ => "(" ++ f.paramsText ++ ") => ..."
  | none, false, _ => "function (" ++ f.paramsText ++ ") \x7b...\x7d"

end SourceMachine
