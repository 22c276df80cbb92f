import SourceMachine.Number.Arithmetic
import SourceMachine.Number.Reading

/-!
# Whole numbers in any base

A numeral is an optional sign and digits of its base.  It is read digit by digit
in floats, and a long one is rounded at every digit.
-/

namespace SourceMachine.Number

/-- The float that digits spell after what was read before them. -/
def digitsOnto? (base : Nat) : (before : Float) → List Char → Option Float
  | before, [] => some before
  | before, c :: cs =>
    match digit? base c with
    | some d => digitsOnto? base (before * ofNat base + ofNat d) cs
    | none => none

/-- The float that at least one digit spells. -/
def unsigned? (base : Nat) (digits : List Char) : Option Float :=
  if digits = [] then none else digitsOnto? base 0 digits

/-- The float of a numeral, and what is not a number for any other text. -/
def ofNumeral (base : Nat) (text : List Char) : Float :=
  match text with
  | '-' :: digits => ((unsigned? base digits).map (- ·)).getD notANumber
  | '+' :: digits => (unsigned? base digits).getD notANumber
  | digits => (unsigned? base digits).getD notANumber

end SourceMachine.Number
